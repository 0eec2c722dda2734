import Mathlib.Data.Set.Basic
import Mathlib.Logic.Function.Basic
import RsRaft.Lib.PlainLog

/-!
# Consensus by leaders and quorums

A group of nodes, each with a term, a log over one common base and a commit
index. A candidate is elected by a quorum whose logs are not ahead of its own,
places entries behind its log, and sends parts of it; who accepts a part
acknowledges how far its log now agrees. What a quorum acknowledged in the
leader's own term is chosen. Two quorums always meet, and that is all that is
known of them.

§1 the group and its steps · §2 logs made by leaders · §3 what a group keeps ·
§4 chosen entries reach every later leader · §5 steps keep it · §6 runs.
-/

namespace Consensus

open PlainLog
open Stamped (stamp)

variable {ν α : Type} [Stamped α ℕ]

/-! ## §1  The group and its steps -/

/-- A part of a leader's log on its way. -/
structure Batch (α : Type) where
  term : ℕ
  prev : ℕ
  prevStamp : ℕ
  entries : List α
  commit : ℕ

/-- The leader of a term: with which log it stood, how far that log has grown under it,
and whose votes elected it. -/
structure Reign (ν α : Type) where
  leader : ν
  stood : PlainLog α ℕ
  log : PlainLog α ℕ
  electors : Set ν

/-- The nodes, and the record of what has happened. -/
structure Group (ν α : Type) where
  term : ν → ℕ
  log : ν → PlainLog α ℕ
  committed : ν → ℕ
  voted : ν → ℕ → ν → Prop
  stood : ν → ℕ → Option (PlainLog α ℕ)
  reign : ℕ → Option (Reign ν α)
  sent : Batch α → Prop
  acked : ν → ℕ → ℕ → Prop

/-- A candidate's log `S` is not behind the voter's log `L`. -/
def UpToDate (S L : PlainLog α ℕ) : Prop :=
  L.lastStamp < S.lastStamp ∨ S.lastStamp = L.lastStamp ∧ L.lastIndex ≤ S.lastIndex

variable [DecidableEq ν]

section

variable (Quorum : Set ν → Prop)

/-- One step, on the part of node `v`. -/
inductive Step (v : ν) (G : Group ν α) : Group ν α → Prop
  | enter {t : ℕ} (h : G.term v < t) :
      Step v G { G with term := Function.update G.term v t }
  /-- A candidate enters a new term and votes for itself. -/
  | stand {t : ℕ} (h : G.term v < t) :
      Step v G { G with
        term := Function.update G.term v t
        stood := fun w u => if w = v ∧ u = t then some (G.log v) else G.stood w u
        voted := fun w u c => G.voted w u c ∨ w = v ∧ u = t ∧ c = v }
  | vote {c : ν} {S : PlainLog α ℕ} (hstood : G.stood c (G.term v) = some S)
      (hfree : ∀ d, G.voted v (G.term v) d → d = c) (hup : UpToDate S (G.log v)) :
      Step v G { G with voted := fun w u d => G.voted w u d ∨ w = v ∧ u = G.term v ∧ d = c }
  /-- A candidate whose log is the one it stood with counts its votes. -/
  | elect (hstood : G.stood v (G.term v) = some (G.log v))
      (hnot : ∀ R, G.reign (G.term v) = some R → R.leader ≠ v)
      (hwon : Quorum {w | G.voted w (G.term v) v}) :
      Step v G { G with
        reign := Function.update G.reign (G.term v)
          (some ⟨v, G.log v, G.log v, {w | G.voted w (G.term v) v}⟩) }
  /-- The leader appends entries of its term, and acknowledges them itself. -/
  | append {R : Reign ν α} {t : ℕ} {es : List α} (hv : R.leader = v)
      (hR : G.reign t = some R) (hterm : G.term R.leader = t) (hes : ∀ e ∈ es, stamp e = t) :
      Step v G { G with
        log := Function.update G.log R.leader (R.log.overwrite R.log.lastIndex es)
        reign := Function.update G.reign t
          (some { R with log := R.log.overwrite R.log.lastIndex es })
        acked := fun w u i => G.acked w u i ∨
          w = R.leader ∧ u = t ∧ i = R.log.lastIndex + es.length }
  /-- A part of a leader's log is sent, with a commit index only by the leader itself. -/
  | send {R : Reign ν α} {t prev k p c : ℕ} (hR : G.reign t = some R)
      (hprev : R.log.stampAt prev = some p) (hk : prev + k ≤ R.log.lastIndex)
      (hc : c ≠ 0 → G.term R.leader = t ∧ c ≤ G.committed R.leader) :
      Step v G { G with
        sent := fun b => G.sent b ∨ b = ⟨t, prev, p, R.log.segment prev k, c⟩ }
  /-- A part that matches is spliced in and acknowledged. -/
  | receive {b : Batch α} (hb : G.sent b) (hterm : b.term = G.term v)
      (hmatch : (G.log v).stampAt b.prev = some b.prevStamp) :
      Step v G { G with
        log := Function.update G.log v ((G.log v).splice b.prev b.entries)
        committed := Function.update G.committed v
          (max (G.committed v) (min b.commit (b.prev + b.entries.length)))
        acked := fun w u i => G.acked w u i ∨
          w = v ∧ u = b.term ∧ i = b.prev + b.entries.length }
  /-- The leader commits what a quorum acknowledged, up to an entry of its term. -/
  | commit {R : Reign ν α} {t i : ℕ} {S : Set ν} (hv : R.leader = v)
      (hR : G.reign t = some R) (hterm : G.term R.leader = t)
      (hstamp : R.log.stampAt i = some t) (hS : Quorum S)
      (hacked : ∀ w ∈ S, ∃ j, i ≤ j ∧ G.acked w t j) :
      Step v G { G with
        committed := Function.update G.committed R.leader (max (G.committed R.leader) i) }

/-- Steps on the part of `v` only. -/
inductive Moves (v : ν) (G : Group ν α) : Group ν α → Prop
  | refl : Moves v G G
  | step {G' G'' : Group ν α} (h : Moves v G G') (h' : Step Quorum v G' G'') : Moves v G G''

inductive Reachable (G₀ : Group ν α) : Group ν α → Prop
  | refl : Reachable G₀ G₀
  | step {v : ν} {G G' : Group ν α} (h : Reachable G₀ G) (h' : Step Quorum v G G') :
      Reachable G₀ G'

end

/-- The bare base everywhere, and nothing has happened. -/
structure Initial (b s : ℕ) (G : Group ν α) : Prop where
  log : ∀ v, G.log v = ⟨b, s, []⟩
  term : ∀ v, s ≤ G.term v
  committed : ∀ v, G.committed v = b
  voted : ∀ v t c, ¬ G.voted v t c
  stood : ∀ v t, G.stood v t = none
  reign : ∀ t, G.reign t = none
  sent : ∀ x, ¬ G.sent x
  acked : ∀ v t i, ¬ G.acked v t i

/-! ## §2  Logs made by leaders -/

section Logs

omit [DecidableEq ν]

variable (b s₀ : ℕ) (reign : ℕ → Option (Reign ν α))

/-- A log in which every entry, with everything before it, was a leader's; its stamps
go up to `t`. -/
structure Made (L : PlainLog α ℕ) (t : ℕ) : Prop where
  base : L.base = b
  baseStamp : L.baseStamp = s₀
  sorted : L.Nondecreasing
  le : ∀ i u, L.stampAt i = some u → u ≤ t
  origin : ∀ i u, b < i → L.stampAt i = some u →
    ∃ R, reign u = some R ∧ SameUpTo L R.log i

/-- The leader of term `t` stood with a log of earlier terms and has added to it. -/
structure Reigned (t : ℕ) (R : Reign ν α) : Prop where
  start : s₀ < t
  made : Made b s₀ reign R.log t
  grown : R.stood.Continues R.log
  before : ∀ i u, R.stood.stampAt i = some u → u < t

/-- Between the terms `s` and `t` somebody led without the first `i` entries of `L`. -/
def Lost (L : PlainLog α ℕ) (s i t : ℕ) : Prop :=
  ∃ u R, s < u ∧ u < t ∧ reign u = some R ∧ ¬ SameUpTo R.stood L i

variable {b s₀ reign} {L M S : PlainLog α ℕ} {R R' : Reign ν α} {s t u i j k : ℕ}

theorem Lost.mono (h : Lost reign L s i t) (ht : t ≤ u) : Lost reign L s i u := by
  obtain ⟨w, R, hs, hw, hR, hno⟩ := h
  exact ⟨w, R, hs, by omega, hR, hno⟩

theorem Made.mono (h : Made b s₀ reign L t) (ht : t ≤ u) : Made b s₀ reign L u :=
  { h with le := fun i a hi => Nat.le_trans (h.le i a hi) ht }

theorem Made.stampAt_base (h : Made b s₀ reign L t) : L.stampAt b = some s₀ := by
  rw [← h.base, ← h.baseStamp, PlainLog.stampAt_base]

theorem Made.le_of_stampAt (h : Made b s₀ reign L t) (hi : L.stampAt i = some u) : b ≤ i := by
  rw [← h.base]
  exact (bounds_of_stampAt hi).1

/-- Up to the base all made logs are the same. -/
theorem Made.same_base (hL : Made b s₀ reign L t) (hM : Made b s₀ reign M u) :
    SameUpTo L M b where
  base := hM.base.trans hL.base.symm
  stamp j hj hle := by
    rw [hL.base] at hj
    obtain rfl : j = b := Nat.le_antisymm hle hj
    rw [hL.stampAt_base, hM.stampAt_base]
  entry j hj hle := by
    rw [hL.base] at hj
    omega

/-- A log that ends inside what it has in common with a made log is made. -/
theorem Made.of_same (h : Made b s₀ reign M t) (hsame : SameUpTo L M i)
    (hlast : L.lastIndex ≤ i) : Made b s₀ reign L t := by
  have hread : ∀ {j a}, L.stampAt j = some a → M.stampAt j = some a := fun {j a} hj =>
    hsame.stampAt_eq (Nat.le_trans (bounds_of_stampAt hj).2 hlast) hj
  have hbase : L.base = b := hsame.base.symm.trans h.base
  refine ⟨hbase, ?_, ?_, fun j a hj => h.le j a (hread hj), ?_⟩
  · have hstamp := hread L.stampAt_base
    rw [hbase, h.stampAt_base] at hstamp
    exact (Option.some.inj hstamp).symm
  · exact fun j j' a a' hjj ha ha' => h.sorted j j' a a' hjj (hread ha) (hread ha')
  · intro j a hj ha
    obtain ⟨R, hR, hagree⟩ := h.origin j a hj (hread ha)
    exact ⟨R, hR, (hsame.mono (Nat.le_trans (bounds_of_stampAt ha).2 hlast)).trans hagree⟩

/-- Two made logs match. -/
theorem Made.same_of_stampAt (hL : Made b s₀ reign L t) (hM : Made b s₀ reign M u) {a : ℕ}
    (hi : L.stampAt i = some a) (hi' : M.stampAt i = some a) : SameUpTo L M i := by
  rcases Nat.eq_or_lt_of_le (hL.le_of_stampAt hi) with rfl | hb
  · exact hL.same_base hM
  · obtain ⟨R, hR, hagree⟩ := hL.origin i a hb hi
    obtain ⟨R', hR', hagree'⟩ := hM.origin i a hb hi'
    rw [hR] at hR'
    cases hR'
    exact hagree.trans hagree'.symm

/-- An entry of a leader's own term lies behind the base. -/
theorem Reigned.base_lt (h : Reigned b s₀ reign s R) (hi : R.log.stampAt i = some s) :
    b < i := by
  refine Nat.lt_of_le_of_ne (h.made.le_of_stampAt hi) ?_
  rintro rfl
  rw [h.made.stampAt_base] at hi
  have hstart := h.start
  cases hi
  omega

/-- What a leader stood with is the beginning of its log. -/
theorem Reigned.same_of_stood (h : Reigned b s₀ reign t R) (hsame : SameUpTo R.stood L i)
    {a : ℕ} (hi : L.stampAt i = some a) : SameUpTo R.log L i := by
  have hin := (bounds_of_stampAt (hsame.symm.stampAt_eq (Nat.le_refl _) hi)).2
  exact (h.grown.sameUpTo hin).symm.trans hsame

/-- A candidate that is not behind a voter has what the voter has from an earlier leader,
unless some leader in between came to power without it. -/
theorem same_of_upToDate (hreign : ∀ u R, reign u = some R → Reigned b s₀ reign u R)
    (hS : Made b s₀ reign S u) (hu : u < t) (hL : Made b s₀ reign L k) (hup : UpToDate S L)
    (hR : reign s = some R) (hi : R.log.stampAt i = some s) (hsame : SameUpTo L R.log i)
    (hlost : ¬ Lost reign R.log s i t) : SameUpTo S R.log i := by
  have hb := (hreign s R hR).base_lt hi
  have hstart := (hreign s R hR).start
  have hLi := hsame.symm.stampAt_eq (Nat.le_refl i) hi
  have hiL := (bounds_of_stampAt hLi).2
  have hsL : s ≤ L.lastStamp := hL.sorted _ _ _ _ hiL hLi L.stampAt_lastIndex
  rcases hup with hlt | ⟨heq, hle⟩
  · -- the candidate's last entry is a later leader's, which had the entry
    have hSlast := S.stampAt_lastIndex
    have hbS : b < S.lastIndex := by
      refine Nat.lt_of_le_of_ne (hS.le_of_stampAt hSlast) fun heq => ?_
      rw [← heq, hS.stampAt_base] at hSlast
      have := Option.some.inj hSlast
      omega
    obtain ⟨R', hR', hagree⟩ := hS.origin _ _ hbS hSlast
    have hstood : SameUpTo R'.stood R.log i := by
      by_contra hno
      exact hlost ⟨_, R', by omega, Nat.lt_of_le_of_lt (hS.le _ _ hSlast) hu, hR', hno⟩
    have hlater := (hreign _ R' hR').same_of_stood hstood hi
    have hiS : i ≤ S.lastIndex := by
      by_contra hgt
      have hle := (hreign _ R' hR').made.sorted _ _ _ _ (Nat.le_of_not_le hgt)
        (hagree.stampAt_eq (Nat.le_refl _) hSlast)
        (hlater.symm.stampAt_eq (Nat.le_refl _) hi)
      omega
    exact (hagree.mono hiS).trans hlater
  · -- both logs end in entries of one leader, and the candidate's is not the shorter
    obtain ⟨R', hR', hagree⟩ := hL.origin _ _ (by omega) L.stampAt_lastIndex
    obtain ⟨R'', hR'', hagree'⟩ := hS.origin _ _ (by omega) S.stampAt_lastIndex
    rw [heq, hR'] at hR''
    cases hR''
    exact ((hagree'.mono (by omega)).trans (hagree.mono hiL).symm).trans hsame

/-! ### Growing reigns -/

/-- Terms that were led keep their leaders, whose logs only get longer. -/
def Grows (reign reign' : ℕ → Option (Reign ν α)) : Prop :=
  ∀ t R, reign t = some R → ∃ R', reign' t = some R' ∧ R'.leader = R.leader ∧
    R'.stood = R.stood ∧ R'.electors = R.electors ∧ R.log.Continues R'.log

variable {reign' reign'' : ℕ → Option (Reign ν α)}

omit [Stamped α ℕ] in
theorem Grows.refl (reign : ℕ → Option (Reign ν α)) : Grows reign reign :=
  fun _ R hR => ⟨R, hR, rfl, rfl, rfl, .refl _⟩

omit [Stamped α ℕ] in
theorem Grows.trans (h : Grows reign reign') (h' : Grows reign' reign'') :
    Grows reign reign'' := by
  intro t R hR
  obtain ⟨R', hR', hl, hs, he, hc⟩ := h t R hR
  obtain ⟨R'', hR'', hl', hs', he', hc'⟩ := h' t R' hR'
  exact ⟨R'', hR'', hl'.trans hl, hs'.trans hs, he'.trans he, hc.trans hc'⟩

theorem Made.grows (h : Made b s₀ reign L t) (hg : Grows reign reign') :
    Made b s₀ reign' L t := by
  refine { h with origin := ?_ }
  intro i u hb hi
  obtain ⟨R, hR, hagree⟩ := h.origin i u hb hi
  obtain ⟨R', hR', _, _, _, hc⟩ := hg u R hR
  have hin := (bounds_of_stampAt (hagree.stampAt_eq (Nat.le_refl i) hi)).2
  exact ⟨R', hR', hagree.trans (hc.sameUpTo hin)⟩

theorem Reigned.grows (h : Reigned b s₀ reign t R) (hg : Grows reign reign') :
    Reigned b s₀ reign' t R :=
  { h with made := h.made.grows hg }

theorem Lost.grows (h : Lost reign L s i t) (hg : Grows reign reign')
    (hsame : SameUpTo L M i) : Lost reign' M s i t := by
  obtain ⟨u, R, hs, ht, hR, hno⟩ := h
  obtain ⟨R', hR', _, hstood, _, _⟩ := hg u R hR
  refine ⟨u, R', hs, ht, hR', ?_⟩
  rw [hstood]
  exact fun hsame' => hno (hsame'.trans hsame.symm)

/-- A leader places entries of its term. -/
theorem Made.overwrite_end {es : List α} (h : Made b s₀ reign L t)
    (hes : ∀ e ∈ es, stamp e = t) (hg : Grows reign reign') (hR : reign' t = some R)
    (hlog : R.log = L.overwrite L.lastIndex es) :
    Made b s₀ reign' (L.overwrite L.lastIndex es) t := by
  have hc := Continues.overwrite_end L es
  have hmade := h.grows hg
  -- behind the old end there are the new entries only
  have hnew : ∀ i u, L.lastIndex < i → (L.overwrite L.lastIndex es).stampAt i = some u →
      u = t := by
    intro i u hi hu
    have hle := h.base ▸ L.base_le_lastIndex
    rw [stampAt_of_gt (by rw [overwrite_base, h.base]; omega)] at hu
    obtain ⟨e, he, rfl⟩ := Option.map_eq_some_iff.mp hu
    have hgt := entryAt_overwrite_gt es L.base_le_lastIndex (Nat.le_refl L.lastIndex)
      (i - (L.lastIndex + 1))
    rw [show L.lastIndex + 1 + (i - (L.lastIndex + 1)) = i by omega, he] at hgt
    exact hes e (List.mem_of_getElem? hgt.symm)
  have hold : ∀ i u, i ≤ L.lastIndex → (L.overwrite L.lastIndex es).stampAt i = some u →
      L.stampAt i = some u := by
    intro i u hi hu
    rwa [hc.stampAt_eq hi] at hu
  refine ⟨h.base, h.baseStamp, ?_, ?_, ?_⟩
  · intro i j a c hij ha hcj
    by_cases hj : j ≤ L.lastIndex
    · exact h.sorted i j a c hij (hold i a (by omega) ha) (hold j c hj hcj)
    · rw [hnew j c (by omega) hcj]
      by_cases hi : i ≤ L.lastIndex
      · exact h.le i a (hold i a hi ha)
      · exact Nat.le_of_eq (hnew i a (by omega) ha)
  · intro i u hu
    by_cases hi : i ≤ L.lastIndex
    · exact h.le i u (hold i u hi hu)
    · exact Nat.le_of_eq (hnew i u (by omega) hu)
  · intro i u hb hu
    by_cases hi : i ≤ L.lastIndex
    · obtain ⟨R', hR', hagree⟩ := hmade.origin i u hb (hold i u hi hu)
      exact ⟨R', hR', (hc.sameUpTo hi).symm.trans hagree⟩
    · obtain rfl := hnew i u (by omega) hu
      exact ⟨R, hR, by rw [hlog]; exact .refl _ _⟩

end Logs

/-! ## §3  What a group keeps -/

section Keeps

omit [DecidableEq ν]

variable (Quorum : Set ν → Prop) (b s₀ : ℕ) (reign : ℕ → Option (Reign ν α))
  (acked : ν → ℕ → ℕ → Prop)

/-- `v` acknowledged the leader `R` of term `s` as far as an entry of that term, at `i`. -/
structure Vouched (v : ν) (s i : ℕ) (R : Reign ν α) : Prop where
  acked : ∃ j, i ≤ j ∧ acked v s j
  reign : reign s = some R
  stamp : R.log.stampAt i = some s

/-- `L` still has what is in the leader's log up to `i`, unless a leader of a term between
`s` and `t` came to power without it. -/
def Kept (L : PlainLog α ℕ) (s i : ℕ) (R : Reign ν α) (t : ℕ) : Prop :=
  Lost reign R.log s i t ∨ SameUpTo L R.log i

/-- A quorum acknowledged an entry of the leader's own term. -/
structure Chosen (s i : ℕ) (R : Reign ν α) : Prop where
  reign : reign s = some R
  stamp : R.log.stampAt i = some s
  quorum : ∃ S, Quorum S ∧ ∀ v ∈ S, ∃ j, i ≤ j ∧ acked v s j

/-- The first `k` entries of `L` are covered by a chosen one, of a term up to `t`. -/
def Decided (L : PlainLog α ℕ) (t k : ℕ) : Prop :=
  k ≤ b ∨ ∃ s i R, s ≤ t ∧ k ≤ i ∧ Chosen Quorum reign acked s i R ∧ SameUpTo L R.log k

/-- What holds of a group at any time. -/
structure Sound (G : Group ν α) : Prop where
  made : ∀ v, Made b s₀ G.reign (G.log v) (G.term v)
  low : ∀ v, s₀ ≤ G.term v
  stood : ∀ c t S, G.stood c t = some S →
    s₀ < t ∧ t ≤ G.term c ∧ ∃ u, u < t ∧ Made b s₀ G.reign S u
  voted : ∀ v t c, G.voted v t c →
    t ≤ G.term v ∧ (∃ S, G.stood c t = some S) ∧ ∀ d, G.voted v t d → d = c
  reigned : ∀ t R, G.reign t = some R → Reigned b s₀ G.reign t R
  leader : ∀ t R, G.reign t = some R →
    t ≤ G.term R.leader ∧ (G.term R.leader = t → G.log R.leader = R.log)
  elected : ∀ t R, G.reign t = some R →
    Quorum R.electors ∧ ∀ v ∈ R.electors, G.voted v t R.leader
  acked : ∀ v s j, G.acked v s j →
    s ≤ G.term v ∧ ∃ R, G.reign s = some R ∧ j ≤ R.log.lastIndex
  /-- in the term of the acknowledgement, all that was acknowledged is there -/
  current : ∀ v j R, G.acked v (G.term v) j → G.reign (G.term v) = some R →
    SameUpTo (G.log v) R.log j
  kept : ∀ v s i R, Vouched G.reign G.acked v s i R →
    Kept G.reign (G.log v) s i R (G.term v + 1)
  /-- who votes for a candidate has nothing the candidate lacks -/
  pledged : ∀ v t c S, G.voted v t c → G.reign t = none → G.stood c t = some S →
    ∀ s i R, s < t → Vouched G.reign G.acked v s i R → Kept G.reign S s i R t
  endorsed : ∀ t R', G.reign t = some R' → ∀ v ∈ R'.electors,
    ∀ s i R, s < t → Vouched G.reign G.acked v s i R → Kept G.reign R'.stood s i R t
  sent : ∀ x, G.sent x → ∃ R, G.reign x.term = some R ∧
    R.log.stampAt x.prev = some x.prevStamp ∧ IsSegment R.log x.prev x.entries ∧
    x.prev + x.entries.length ≤ R.log.lastIndex ∧
    Decided Quorum b G.reign G.acked R.log x.term x.commit
  committed : ∀ v, Decided Quorum b G.reign G.acked (G.log v) (G.term v) (G.committed v)

variable {Quorum b s₀ reign acked} {reign' : ℕ → Option (Reign ν α)}
  {acked' : ν → ℕ → ℕ → Prop} {L M : PlainLog α ℕ} {R R' : Reign ν α} {v : ν}
  {s t u i j k : ℕ}

theorem Kept.grows (h : Kept reign L s i R t) (hg : Grows reign reign')
    (hc : R.log.Continues R'.log) (hi : i ≤ R.log.lastIndex) : Kept reign' L s i R' t := by
  have hsame : SameUpTo R.log R'.log i := hc.sameUpTo hi
  rcases h with hlost | hkept
  · exact Or.inl (hlost.grows hg hsame)
  · exact Or.inr (hkept.trans hsame)

theorem Kept.mono (h : Kept reign L s i R t) (ht : t ≤ u) : Kept reign L s i R u :=
  h.imp_left fun hlost => hlost.mono ht

/-- A log that grows keeps what it has of an entry that is there. -/
theorem Kept.continues (h : Kept reign L s i R t) (hi : R.log.stampAt i = some s)
    (hc : L.Continues M) : Kept reign M s i R t := by
  refine h.imp_right fun hsame => ?_
  have hin := (bounds_of_stampAt (hsame.symm.stampAt_eq (Nat.le_refl i) hi)).2
  exact (hc.sameUpTo hin).symm.trans hsame

/-- What was vouched for of a grown reign was so before. -/
theorem Vouched.back (hg : Grows reign reign')
    (hack : ∀ v s j, acked v s j → ∃ R, reign s = some R ∧ j ≤ R.log.lastIndex)
    (h : Vouched reign' acked v s i R') :
    ∃ R, Vouched reign acked v s i R ∧ R.log.Continues R'.log ∧ i ≤ R.log.lastIndex := by
  obtain ⟨⟨j, hij, hj⟩, hR', hi⟩ := h
  obtain ⟨R, hR, hle⟩ := hack v s j hj
  obtain ⟨R'', hR'', _, _, _, hc⟩ := hg s R hR
  rw [hR'] at hR''
  cases hR''
  have hin : i ≤ R.log.lastIndex := Nat.le_trans hij hle
  exact ⟨R, ⟨⟨j, hij, hj⟩, hR, by rwa [← hc.stampAt_eq hin]⟩, hc, hin⟩

theorem Chosen.grows (h : Chosen Quorum reign acked s i R) (hg : Grows reign reign')
    (hack : ∀ v s j, acked v s j → acked' v s j) :
    ∃ R', Chosen Quorum reign' acked' s i R' ∧ SameUpTo R.log R'.log i := by
  obtain ⟨R', hR', _, _, _, hc⟩ := hg s R h.reign
  have hin := (bounds_of_stampAt h.stamp).2
  refine ⟨R', ⟨hR', by rw [hc.stampAt_eq hin]; exact h.stamp, ?_⟩, hc.sameUpTo hin⟩
  obtain ⟨S, hS, hall⟩ := h.quorum
  refine ⟨S, hS, fun v hv => ?_⟩
  obtain ⟨j, hij, hj⟩ := hall v hv
  exact ⟨j, hij, hack v s j hj⟩

theorem Decided.grows (h : Decided Quorum b reign acked L t k) (hg : Grows reign reign')
    (hack : ∀ v s j, acked v s j → acked' v s j) : Decided Quorum b reign' acked' L t k := by
  rcases h with hb | ⟨s, i, R, hs, hk, hchosen, hsame⟩
  · exact Or.inl hb
  · obtain ⟨R', hchosen', hsame'⟩ := hchosen.grows hg hack
    exact Or.inr ⟨s, i, R', hs, hk, hchosen', hsame.trans (hsame'.mono hk)⟩

theorem Decided.mono (h : Decided Quorum b reign acked L t k) (ht : t ≤ u) (hj : j ≤ k) :
    Decided Quorum b reign acked L u j := by
  rcases h with hb | ⟨s, i, R, hs, hk, hchosen, hsame⟩
  · exact Or.inl (Nat.le_trans hj hb)
  · exact Or.inr ⟨s, i, R, by omega, by omega, hchosen, hsame.mono hj⟩

theorem Decided.same (h : Decided Quorum b reign acked L t k) (hsame : SameUpTo M L k) :
    Decided Quorum b reign acked M t k := by
  rcases h with hb | ⟨s, i, R, hs, hk, hchosen, hsame'⟩
  · exact Or.inl hb
  · exact Or.inr ⟨s, i, R, hs, hk, hchosen, hsame.trans hsame'⟩

/-- What is decided is there. -/
theorem Decided.le_lastIndex (h : Decided Quorum b reign acked L t k) (hL : Made b s₀ reign L u) :
    k ≤ L.lastIndex := by
  rcases h with hb | ⟨s, i, R, _, hk, hchosen, hsame⟩
  · exact Nat.le_trans hb (hL.base ▸ L.base_le_lastIndex)
  · by_cases hb : k ≤ b
    · exact Nat.le_trans hb (hL.base ▸ L.base_le_lastIndex)
    · have hbase : R.log.base = b := hsame.base.trans hL.base
      obtain ⟨a, ha⟩ := exists_stampAt (L := R.log) (i := k) (by omega)
        (Nat.le_trans hk (bounds_of_stampAt hchosen.stamp).2)
      exact (bounds_of_stampAt (hsame.symm.stampAt_eq (Nat.le_refl k) ha)).2

/-! ## §4  Chosen entries reach every later leader -/

variable {G : Group ν α} (hmeet : ∀ S S', Quorum S → Quorum S' → ∃ v, v ∈ S ∧ v ∈ S')

include hmeet

/-- A later leader came to power with the chosen entry and everything before it: some
voter of its quorum had acknowledged it. -/
theorem Sound.completeness (h : Sound Quorum b s₀ G)
    (hc : Chosen Quorum G.reign G.acked s i R) (hst : s < t) (hR' : G.reign t = some R') :
    SameUpTo R'.stood R.log i := by
  induction t using Nat.strongRecOn generalizing R' with
  | _ t ih =>
      obtain ⟨S, hS, hall⟩ := hc.quorum
      obtain ⟨v, hv, hv'⟩ := hmeet S R'.electors hS (h.elected t R' hR').1
      rcases h.endorsed t R' hR' v hv' s i R hst ⟨hall v hv, hc.reign, hc.stamp⟩ with
        ⟨u, R₁, hsu, hut, hR₁, hno⟩ | hsame
      · exact absurd (ih u hut hsu hR₁) hno
      · exact hsame

theorem Sound.complete (h : Sound Quorum b s₀ G) (hc : Chosen Quorum G.reign G.acked s i R)
    (hst : s ≤ t) (hR' : G.reign t = some R') : SameUpTo R'.log R.log i := by
  rcases Nat.eq_or_lt_of_le hst with rfl | hlt
  · rw [hc.reign] at hR'
    cases hR'
    exact .refl _ _
  · exact (h.reigned t R' hR').same_of_stood (h.completeness hmeet hc hlt hR') hc.stamp

/-- Logs are the same as far as both are decided. -/
theorem Sound.same_of_decided (h : Sound Quorum b s₀ G) {L' : PlainLog α ℕ} {t' k' u' : ℕ}
    (hL : Made b s₀ G.reign L u) (hL' : Made b s₀ G.reign L' u')
    (hd : Decided Quorum b G.reign G.acked L t k)
    (hd' : Decided Quorum b G.reign G.acked L' t' k') (hk : j ≤ k) (hk' : j ≤ k') :
    SameUpTo L L' j := by
  rcases hd with hb | ⟨s, i, R, _, hki, hchosen, hsame⟩
  · exact (hL.same_base hL').mono (Nat.le_trans hk hb)
  rcases hd' with hb | ⟨s', i', R', _, hki', hchosen', hsame'⟩
  · exact (hL.same_base hL').mono (Nat.le_trans hk' hb)
  have hlogs : SameUpTo R.log R'.log j := by
    rcases Nat.le_total s s' with hle | hle
    · exact ((h.complete hmeet hchosen hle hchosen'.reign).mono (by omega)).symm
    · exact (h.complete hmeet hchosen' hle hchosen.reign).mono (by omega)
  exact (hsame.mono hk).trans (hlogs.trans (hsame'.mono hk').symm)

end Keeps

/-! ## §5  Steps keep it -/

section Steps

variable {Quorum : Set ν → Prop} {b s₀ : ℕ} {G G' G₀ : Group ν α} {R R' : Reign ν α}
  {v c : ν} {L S : PlainLog α ℕ} {s t u i j k : ℕ}

omit [Stamped α ℕ] in
theorem le_update (h : G.term v < t) (w : ν) : G.term w ≤ Function.update G.term v t w := by
  by_cases hw : w = v
  · rw [hw, Function.update_self]
    exact Nat.le_of_lt h
  · rw [Function.update_of_ne hw]

omit [DecidableEq ν] in
theorem Initial.sound (h : Initial b s₀ G) : Sound Quorum b s₀ G where
  made v := by
    have hstamp : ∀ i u, (G.log v).stampAt i = some u → u = s₀ := by
      intro i u hi
      rw [h.log v] at hi
      obtain ⟨hb, hl⟩ := bounds_of_stampAt hi
      obtain rfl : i = b := Nat.le_antisymm hl hb
      exact (Option.some.inj ((PlainLog.stampAt_base (L := (⟨i, s₀, []⟩ : PlainLog α ℕ))).symm.trans
        hi)).symm
    refine ⟨by rw [h.log v], by rw [h.log v], ?_, ?_, ?_⟩
    · intro i j a c _ ha hc
      rw [hstamp i a ha, hstamp j c hc]
    · intro i u hi
      rw [hstamp i u hi]
      exact h.term v
    · intro i u hb hi
      have hl := (bounds_of_stampAt hi).2
      rw [h.log v] at hl
      exact absurd hb (Nat.not_lt_of_le hl)
  low := h.term
  stood c t S hS := by
    rw [h.stood c t] at hS
    cases hS
  voted v t c hv := (h.voted v t c hv).elim
  reigned t R hR := by
    rw [h.reign t] at hR
    cases hR
  leader t R hR := by
    rw [h.reign t] at hR
    cases hR
  elected t R hR := by
    rw [h.reign t] at hR
    cases hR
  acked v s j hj := (h.acked v s j hj).elim
  current v j R hj := (h.acked v _ j hj).elim
  kept v s i R hv := by
    obtain ⟨⟨j, _, hj⟩, _, _⟩ := hv
    exact (h.acked v s j hj).elim
  pledged v t c S hv := (h.voted v t c hv).elim
  endorsed t R hR := by
    rw [h.reign t] at hR
    cases hR
  sent x hx := (h.sent x hx).elim
  committed v := Or.inl (Nat.le_of_eq (h.committed v))

theorem Sound.enter (h : Sound Quorum b s₀ G) (hv : G.term v < t) :
    Sound Quorum b s₀ { G with term := Function.update G.term v t } := by
  have hle := le_update hv
  refine { h with
    made := ?_
    low := ?_
    stood := ?_
    voted := ?_
    leader := ?_
    acked := ?_
    current := ?_
    kept := ?_
    committed := ?_ }
  · exact fun w => (h.made w).mono (hle w)
  · exact fun w => Nat.le_trans (h.low w) (hle w)
  · intro c u S hS
    obtain ⟨hs, hu, hmade⟩ := h.stood c u S hS
    exact ⟨hs, Nat.le_trans hu (hle c), hmade⟩
  · intro w u c hw
    obtain ⟨hu, hrest⟩ := h.voted w u c hw
    exact ⟨Nat.le_trans hu (hle w), hrest⟩
  · intro u R hR
    obtain ⟨hu, hlog⟩ := h.leader u R hR
    refine ⟨Nat.le_trans hu (hle _), fun hterm => hlog ?_⟩
    dsimp only at hterm
    by_cases hw : R.leader = v
    · rw [hw] at hu hterm ⊢
      rw [Function.update_self] at hterm
      omega
    · rwa [Function.update_of_ne hw] at hterm
  · intro w s j hj
    obtain ⟨hs, hrest⟩ := h.acked w s j hj
    exact ⟨Nat.le_trans hs (hle w), hrest⟩
  · intro w j R hj hR
    dsimp only at hj hR
    by_cases hw : w = v
    · rw [hw, Function.update_self] at hj
      have hle' := (h.acked v t j hj).1
      omega
    · rw [Function.update_of_ne hw] at hj hR
      exact h.current w j R hj hR
  · exact fun w s i R hw => (h.kept w s i R hw).mono (Nat.succ_le_succ (hle w))
  · exact fun w => (h.committed w).mono (hle w) (Nat.le_refl _)

omit [DecidableEq ν] in
/-- Nobody has stood in a term it has not entered. -/
theorem Sound.stood_none (h : Sound Quorum b s₀ G) (hv : G.term v < t) :
    G.stood v t = none := by
  by_contra hsome
  obtain ⟨S, hS⟩ := Option.ne_none_iff_exists'.mp hsome
  have hle := (h.stood v t S hS).2.1
  omega

/-- A candidate stands with the log it has, so it lacks nothing of its own. -/
theorem Sound.stand (h : Sound Quorum b s₀ G) (hv : G.term v < t) :
    Sound Quorum b s₀ { G with
      term := Function.update G.term v t
      stood := fun w u => if w = v ∧ u = t then some (G.log v) else G.stood w u
      voted := fun w u c => G.voted w u c ∨ w = v ∧ u = t ∧ c = v } := by
  have hterm : Function.update G.term v t v = t := Function.update_self ..
  -- nobody stood or voted as `v` in this term before
  have hfresh := h.stood_none hv
  have hold : ∀ {w u c}, G.voted w u c → ¬ (c = v ∧ u = t) := by
    rintro w u c hw ⟨rfl, rfl⟩
    obtain ⟨S, hS⟩ := (h.voted w u c hw).2.1
    rw [hfresh] at hS
    cases hS
  have hnew : ∀ c, ¬ G.voted v t c := by
    intro c hc
    have hle := (h.voted v t c hc).1
    omega
  refine { h.enter hv with stood := ?_, voted := ?_, elected := ?_, pledged := ?_ }
  · intro c u S hS
    dsimp only at hS
    split at hS
    · rename_i heq
      obtain ⟨rfl, rfl⟩ := heq
      cases hS
      have hlow := h.low c
      exact ⟨by omega, Nat.le_of_eq hterm.symm, _, hv, h.made c⟩
    · exact (h.enter hv).stood c u S hS
  · intro w u c hw
    rcases hw with hw | ⟨rfl, rfl, rfl⟩
    · obtain ⟨hu, ⟨S, hS⟩, huniq⟩ := (h.enter hv).voted w u c hw
      refine ⟨hu, ⟨S, (if_neg (hold hw)).trans hS⟩, ?_⟩
      rintro d (hd | ⟨rfl, rfl, rfl⟩)
      · exact huniq d hd
      · exact absurd hw (hnew c)
    · refine ⟨Nat.le_of_eq hterm.symm, ⟨_, if_pos ⟨rfl, rfl⟩⟩, ?_⟩
      rintro d (hd | ⟨_, _, rfl⟩)
      · exact absurd hd (hnew d)
      · rfl
  · intro u R hR
    obtain ⟨hq, hvotes⟩ := h.elected u R hR
    exact ⟨hq, fun w hw => Or.inl (hvotes w hw)⟩
  · intro w u c S hw hnone hS s i R hsu hvouched
    dsimp only at hS
    rcases hw with hw | ⟨rfl, rfl, rfl⟩
    · rw [if_neg (hold hw)] at hS
      exact h.pledged w u c S hw hnone hS s i R hsu hvouched
    · rw [if_pos ⟨rfl, rfl⟩] at hS
      cases hS
      exact (h.kept c s i R hvouched).mono hv

omit [DecidableEq ν] in
/-- Who votes has nothing the candidate lacks. -/
theorem Sound.vote (h : Sound Quorum b s₀ G) (hstood : G.stood c (G.term v) = some S)
    (hfree : ∀ d, G.voted v (G.term v) d → d = c) (hup : UpToDate S (G.log v)) :
    Sound Quorum b s₀ { G with
      voted := fun w u d => G.voted w u d ∨ w = v ∧ u = G.term v ∧ d = c } := by
  refine { h with voted := ?_, elected := ?_, pledged := ?_ }
  · intro w u d hw
    rcases hw with hw | ⟨rfl, rfl, rfl⟩
    · obtain ⟨hu, hS, huniq⟩ := h.voted w u d hw
      refine ⟨hu, hS, ?_⟩
      rintro e (he | ⟨rfl, rfl, rfl⟩)
      · exact huniq e he
      · exact (hfree d hw).symm
    · refine ⟨Nat.le_refl _, ⟨S, hstood⟩, ?_⟩
      rintro e (he | ⟨_, _, rfl⟩)
      · exact hfree e he
      · rfl
  · intro u R hR
    obtain ⟨hq, hvotes⟩ := h.elected u R hR
    exact ⟨hq, fun w hw => Or.inl (hvotes w hw)⟩
  · intro w u d S' hw hnone hS' s i R hsu hvouched
    rcases hw with hw | ⟨rfl, rfl, rfl⟩
    · exact h.pledged w u d S' hw hnone hS' s i R hsu hvouched
    rw [hstood] at hS'
    cases hS'
    obtain ⟨_, _, a, ha, hmade⟩ := h.stood d _ S hstood
    by_cases hlost : Lost G.reign R.log s i (G.term w)
    · exact Or.inl hlost
    refine Or.inr ?_
    rcases h.kept w s i R hvouched with ⟨a', R', hsa, hat, hR', hno⟩ | hsame
    · -- nobody leads the present term, so whoever lacked the entry led before
      refine absurd ⟨a', R', hsa, ?_, hR', hno⟩ hlost
      refine Nat.lt_of_le_of_ne (Nat.le_of_lt_succ hat) ?_
      rintro rfl
      rw [hnone] at hR'
      cases hR'
    · exact same_of_upToDate h.reigned hmade ha (h.made w) hup hvouched.reign hvouched.stamp
        hsame hlost

omit [DecidableEq ν] in
theorem Sound.send {p : ℕ} (h : Sound Quorum b s₀ G) (hR : G.reign t = some R)
    (hprev : R.log.stampAt j = some p) (hk : j + k ≤ R.log.lastIndex)
    (hc : i ≠ 0 → G.term R.leader = t ∧ i ≤ G.committed R.leader) :
    Sound Quorum b s₀ { G with
      sent := fun x => G.sent x ∨ x = ⟨t, j, p, R.log.segment j k, i⟩ } := by
  refine { h with sent := ?_ }
  rintro x (hx | rfl)
  · exact h.sent x hx
  · have hb := (bounds_of_stampAt hprev).1
    refine ⟨R, hR, hprev, isSegment_segment hb hk, by rw [length_segment hb hk]; exact hk, ?_⟩
    by_cases hi : i = 0
    · exact Or.inl (hi ▸ Nat.zero_le b)
    · obtain ⟨hterm, hle⟩ := hc hi
      have hd := h.committed R.leader
      rw [(h.leader t R hR).2 hterm, hterm] at hd
      exact hd.mono (Nat.le_refl t) hle

theorem Sound.commit {Q : Set ν} (h : Sound Quorum b s₀ G) (hR : G.reign t = some R)
    (hterm : G.term R.leader = t) (hstamp : R.log.stampAt i = some t) (hQ : Quorum Q)
    (hacked : ∀ v ∈ Q, ∃ j, i ≤ j ∧ G.acked v t j) :
    Sound Quorum b s₀ { G with
      committed := Function.update G.committed R.leader (max (G.committed R.leader) i) } := by
  refine { h with committed := ?_ }
  intro w
  by_cases hw : w = R.leader
  · subst hw
    have hlog := (h.leader t R hR).2 hterm
    have hi : Decided Quorum b G.reign G.acked (G.log R.leader) (G.term R.leader) i := by
      rw [hlog, hterm]
      exact Or.inr ⟨t, i, R, Nat.le_refl _, Nat.le_refl _, ⟨hR, hstamp, Q, hQ, hacked⟩, .refl _ _⟩
    dsimp only
    rw [Function.update_self]
    rcases Nat.le_total (G.committed R.leader) i with hle | hle
    · rwa [Nat.max_eq_right hle]
    · rw [Nat.max_eq_left hle]
      exact h.committed R.leader
  · dsimp only
    rw [Function.update_of_ne hw]
    exact h.committed w

section Meeting

variable (hmeet : ∀ S S', Quorum S → Quorum S' → ∃ v, v ∈ S ∧ v ∈ S')

include hmeet

omit [DecidableEq ν] in
/-- Nobody else can have been elected in the term. -/
theorem Sound.reign_none (h : Sound Quorum b s₀ G)
    (hnot : ∀ R, G.reign t = some R → R.leader ≠ c) (hwon : Quorum {v | G.voted v t c}) :
    G.reign t = none := by
  by_contra hsome
  obtain ⟨R, hR⟩ := Option.ne_none_iff_exists'.mp hsome
  obtain ⟨hQ, hvotes⟩ := h.elected t R hR
  obtain ⟨v, hv, hv'⟩ := hmeet _ _ hQ hwon
  exact hnot R hR ((h.voted v t c hv').2.2 R.leader (hvotes v hv))

omit [DecidableEq ν] in
/-- The electors lack nothing the new leader lacks. -/
theorem Sound.elect (h : Sound Quorum b s₀ G) (hstood : G.stood c (G.term c) = some (G.log c))
    (hnot : ∀ R, G.reign (G.term c) = some R → R.leader ≠ c)
    (hwon : Quorum {v | G.voted v (G.term c) c}) :
    let reign' := Function.update G.reign (G.term c)
      (some ⟨c, G.log c, G.log c, {v | G.voted v (G.term c) c}⟩)
    Grows G.reign reign' ∧ Sound Quorum b s₀ { G with reign := reign' } := by
  intro reign'
  have hnone := h.reign_none hmeet hnot hwon
  have hself : reign' (G.term c) = some ⟨c, G.log c, G.log c, {v | G.voted v (G.term c) c}⟩ :=
    Function.update_self ..
  have hne : ∀ {u}, u ≠ G.term c → reign' u = G.reign u := fun hu => Function.update_of_ne hu _ _
  have hback : ∀ {u R}, reign' u = some R → u ≠ G.term c → G.reign u = some R := fun hR hu => by
    rwa [hne hu] at hR
  have hg : Grows G.reign reign' := by
    intro u R hR
    refine ⟨R, ?_, rfl, rfl, rfl, .refl _⟩
    rw [hne ?_, hR]
    rintro rfl
    rw [hnone] at hR
    cases hR
  have hack := fun v s j hj => (h.acked v s j hj).2
  obtain ⟨hs₀, _, a, ha, hmade⟩ := h.stood c _ _ hstood
  refine ⟨hg, { h with
    made := fun v => (h.made v).grows hg
    stood := ?_
    reigned := ?_
    leader := ?_
    elected := ?_
    acked := ?_
    current := ?_
    kept := ?_
    pledged := ?_
    endorsed := ?_
    sent := ?_
    committed := fun v => (h.committed v).grows hg fun _ _ _ hj => hj }⟩
  · intro d u S hS
    obtain ⟨hs, hu, w, hw, hmade'⟩ := h.stood d u S hS
    exact ⟨hs, hu, w, hw, hmade'.grows hg⟩
  · intro u R hR
    by_cases hu : u = G.term c
    · subst hu
      cases hself.symm.trans hR
      exact ⟨hs₀, (h.made c).grows hg, .refl _,
        fun i w hi => Nat.lt_of_le_of_lt (hmade.le i w hi) ha⟩
    · exact (h.reigned u R (hback hR hu)).grows hg
  · intro u R hR
    by_cases hu : u = G.term c
    · subst hu
      cases hself.symm.trans hR
      exact ⟨Nat.le_refl _, fun _ => rfl⟩
    · exact h.leader u R (hback hR hu)
  · intro u R hR
    by_cases hu : u = G.term c
    · subst hu
      cases hself.symm.trans hR
      exact ⟨hwon, fun v hv => hv⟩
    · exact h.elected u R (hback hR hu)
  · intro v s j hj
    obtain ⟨hs, R, hR, hle⟩ := h.acked v s j hj
    obtain ⟨R', hR', _, _, _, hc⟩ := hg s R hR
    exact ⟨hs, R', hR', Nat.le_trans hle hc.lastIndex_le⟩
  · intro v j R hj hR
    refine h.current v j R hj (hback hR fun hu => ?_)
    -- nobody has acknowledged anything in the new leader's term
    obtain ⟨R₁, hR₁, _⟩ := hack v (G.term v) j hj
    rw [hu, hnone] at hR₁
    cases hR₁
  · intro v s i R hv
    obtain ⟨R₀, hv₀, hc, hi⟩ := hv.back hg hack
    exact (h.kept v s i R₀ hv₀).grows hg hc hi
  · intro v u d S hv hu hS s i R hsu hvouched
    obtain ⟨R₀, hv₀, hc, hi⟩ := hvouched.back hg hack
    have hold : G.reign u = none := by
      by_cases heq : u = G.term c
      · rw [heq, hnone]
      · exact (hne heq).symm.trans hu
    exact (h.pledged v u d S hv hold hS s i R₀ hsu hv₀).grows hg hc hi
  · intro u R hR v hv s i R₁ hsu hvouched
    obtain ⟨R₀, hv₀, hc, hi⟩ := hvouched.back hg hack
    by_cases hu : u = G.term c
    · -- the electors pledged themselves before anybody led the term
      subst hu
      cases hself.symm.trans hR
      exact (h.pledged v _ c _ hv hnone hstood s i R₀ hsu hv₀).grows hg hc hi
    · exact (h.endorsed u R (hback hR hu) v hv s i R₀ hsu hv₀).grows hg hc hi
  · intro x hx
    obtain ⟨R, hR, hprev, hseg, hlen, hd⟩ := h.sent x hx
    refine ⟨R, (hne ?_).trans hR, hprev, hseg, hlen, hd.grows hg fun _ _ _ hj => hj⟩
    intro heq
    rw [heq, hnone] at hR
    cases hR

end Meeting

/-- The leader's log and the record of it grow alike. -/
theorem Sound.append {es : List α} (h : Sound Quorum b s₀ G) (hR : G.reign t = some R)
    (hterm : G.term R.leader = t) (hes : ∀ e ∈ es, stamp e = t) :
    let log' := R.log.overwrite R.log.lastIndex es
    let reign' := Function.update G.reign t (some { R with log := log' })
    Grows G.reign reign' ∧ Sound Quorum b s₀ { G with
      log := Function.update G.log R.leader log'
      reign := reign'
      acked := fun w u i => G.acked w u i ∨
        w = R.leader ∧ u = t ∧ i = R.log.lastIndex + es.length } := by
  intro log' reign'
  have hlogs := (h.leader t R hR).2 hterm
  have hcont : R.log.Continues log' := Continues.overwrite_end R.log es
  have hlast : log'.lastIndex = R.log.lastIndex + es.length :=
    lastIndex_overwrite R.log.base_le_lastIndex (Nat.le_refl _)
  have hself : reign' t = some { R with log := log' } := Function.update_self ..
  have hne : ∀ {u}, u ≠ t → reign' u = G.reign u := fun hu => Function.update_of_ne hu _ _
  have hback : ∀ {u R'}, reign' u = some R' → ∃ R₀, G.reign u = some R₀ ∧
      R'.leader = R₀.leader ∧ R'.stood = R₀.stood ∧ R'.electors = R₀.electors := by
    intro u R' hR'
    by_cases hu : u = t
    · subst hu
      cases hself.symm.trans hR'
      exact ⟨R, hR, rfl, rfl, rfl⟩
    · exact ⟨R', (hne hu).symm.trans hR', rfl, rfl, rfl⟩
  have hg : Grows G.reign reign' := by
    intro u R' hR'
    by_cases hu : u = t
    · subst hu
      cases hR.symm.trans hR'
      exact ⟨_, hself, rfl, rfl, rfl, hcont⟩
    · exact ⟨R', (hne hu).trans hR', rfl, rfl, rfl, .refl _⟩
  have hack := fun v s j hj => (h.acked v s j hj).2
  have hreigned := h.reigned t R hR
  have hmade : Made b s₀ reign' log' t := hreigned.made.overwrite_end hes hg hself rfl
  have hleader : Function.update G.log R.leader log' R.leader = log' := Function.update_self ..
  have hother : ∀ {v}, v ≠ R.leader → Function.update G.log R.leader log' v = G.log v :=
    fun hv => Function.update_of_ne hv _ _
  have hgrown : ∀ v, (G.log v).Continues (Function.update G.log R.leader log' v) := by
    intro v
    by_cases hv : v = R.leader
    · rw [hv, hleader, hlogs]
      exact hcont
    · rw [hother hv]
      exact .refl _
  -- an acknowledgement is an old one, or the leader's own of everything it now has
  have hvouch : ∀ {v s i R'}, Vouched reign' (fun w u i => G.acked w u i ∨
      w = R.leader ∧ u = t ∧ i = R.log.lastIndex + es.length) v s i R' →
      (∃ R₀, Vouched G.reign G.acked v s i R₀ ∧ R₀.log.Continues R'.log ∧
        i ≤ R₀.log.lastIndex) ∨ v = R.leader ∧ s = t ∧ R'.log = log' := by
    rintro v s i R' ⟨⟨j, hij, hj | ⟨rfl, rfl, rfl⟩⟩, hR', hi⟩
    · exact Or.inl (Vouched.back hg hack ⟨⟨j, hij, hj⟩, hR', hi⟩)
    · cases hself.symm.trans hR'
      exact Or.inr ⟨rfl, rfl, rfl⟩
  refine ⟨hg, { h with
    made := ?_
    stood := ?_
    reigned := ?_
    leader := ?_
    elected := ?_
    acked := ?_
    current := ?_
    kept := ?_
    pledged := ?_
    endorsed := ?_
    sent := ?_
    committed := ?_ }⟩
  · intro v
    by_cases hv : v = R.leader
    · subst hv
      dsimp only
      rw [hleader, hterm]
      exact hmade
    · dsimp only
      rw [hother hv]
      exact (h.made v).grows hg
  · intro d u S hS
    obtain ⟨hs, hu, w, hw, hmade'⟩ := h.stood d u S hS
    exact ⟨hs, hu, w, hw, hmade'.grows hg⟩
  · intro u R' hR'
    by_cases hu : u = t
    · subst hu
      cases hself.symm.trans hR'
      exact ⟨hreigned.start, hmade, hreigned.grown.trans hcont, hreigned.before⟩
    · exact (h.reigned u R' ((hne hu).symm.trans hR')).grows hg
  · intro u R' hR'
    by_cases hu : u = t
    · subst hu
      cases hself.symm.trans hR'
      exact ⟨(h.leader u R hR).1, fun _ => hleader⟩
    · have hold := (hne hu).symm.trans hR'
      refine ⟨(h.leader u R' hold).1, fun hu' => ?_⟩
      have hv : R'.leader ≠ R.leader := by
        intro heq
        dsimp only at hu'
        rw [heq, hterm] at hu'
        exact hu hu'.symm
      exact (hother hv).trans ((h.leader u R' hold).2 hu')
  · intro u R' hR'
    obtain ⟨R₀, hR₀, hl, _, he⟩ := hback hR'
    rw [hl, he]
    exact h.elected u R₀ hR₀
  · rintro v s j (hj | ⟨rfl, rfl, rfl⟩)
    · obtain ⟨hs, R₀, hR₀, hle⟩ := h.acked v s j hj
      obtain ⟨R', hR', _, _, _, hc⟩ := hg s R₀ hR₀
      exact ⟨hs, R', hR', Nat.le_trans hle hc.lastIndex_le⟩
    · exact ⟨Nat.le_of_eq hterm.symm, _, hself, Nat.le_of_eq hlast.symm⟩
  · intro v j R' hj hR'
    by_cases hv : v = R.leader
    · subst hv
      dsimp only at hR' ⊢
      rw [hterm, hself] at hR'
      cases hR'
      rw [hleader]
      exact .refl _ _
    · dsimp only
      rw [hother hv]
      rcases hj with hj | ⟨rfl, _⟩
      · obtain ⟨R₀, hR₀, hle⟩ := hack v _ j hj
        obtain ⟨R₁, hR₁, _, _, _, hc⟩ := hg _ R₀ hR₀
        cases hR₁.symm.trans hR'
        exact (h.current v j R₀ hj hR₀).trans (hc.sameUpTo hle)
      · exact absurd rfl hv
  · intro v s i R' hv
    rcases hvouch hv with ⟨R₀, hv₀, hc, hi⟩ | ⟨rfl, rfl, hlog⟩
    · exact ((h.kept v s i R₀ hv₀).grows hg hc hi).continues hv.stamp (hgrown v)
    · refine Or.inr ?_
      dsimp only
      rw [hleader, hlog]
      exact .refl _ _
  · intro v u d S hv hu hS s i R' hsu hv'
    have hold : G.reign u = none := by
      by_cases heq : u = t
      · subst heq
        cases hself.symm.trans hu
      · exact (hne heq).symm.trans hu
    rcases hvouch hv' with ⟨R₀, hv₀, hc, hi⟩ | ⟨rfl, rfl, _⟩
    · exact (h.pledged v u d S hv hold hS s i R₀ hsu hv₀).grows hg hc hi
    · have hle := (h.voted _ u d hv).1
      omega
  · intro u R' hR' v hv s i R₁ hsu hv'
    obtain ⟨R₂, hR₂, _, hs, he⟩ := hback hR'
    rw [he] at hv
    rw [hs]
    rcases hvouch hv' with ⟨R₀, hv₀, hc, hi⟩ | ⟨rfl, rfl, _⟩
    · exact (h.endorsed u R₂ hR₂ v hv s i R₀ hsu hv₀).grows hg hc hi
    · have hle := (h.voted _ u _ ((h.elected u R₂ hR₂).2 _ hv)).1
      omega
  · intro x hx
    obtain ⟨R₀, hR₀, hprev, hseg, hlen, hd⟩ := h.sent x hx
    obtain ⟨R', hR', _, _, _, hc⟩ := hg _ R₀ hR₀
    have hin := (bounds_of_stampAt hprev).2
    have hk := hd.le_lastIndex (h.reigned _ R₀ hR₀).made
    refine ⟨R', hR', by rw [hc.stampAt_eq hin]; exact hprev, hseg.continues hlen hc,
      Nat.le_trans hlen hc.lastIndex_le, ?_⟩
    exact (hd.same (hc.sameUpTo hk).symm).grows hg fun _ _ _ hj => Or.inl hj
  · intro v
    have hd := h.committed v
    have hk := hd.le_lastIndex (h.made v)
    exact (hd.same ((hgrown v).sameUpTo hk).symm).grows hg fun _ _ _ hj => Or.inl hj

/-- A log that takes a part of the leader's is the leader's up to the end of that part, and
loses nothing of what is decided. -/
theorem Sound.receive {x : Batch α} (hmeet : ∀ S S', Quorum S → Quorum S' → ∃ v, v ∈ S ∧ v ∈ S')
    (h : Sound Quorum b s₀ G) (hx : G.sent x) (hterm : x.term = G.term v)
    (hmatch : (G.log v).stampAt x.prev = some x.prevStamp) :
    Sound Quorum b s₀ { G with
      log := Function.update G.log v ((G.log v).splice x.prev x.entries)
      committed := Function.update G.committed v
        (max (G.committed v) (min x.commit (x.prev + x.entries.length)))
      acked := fun w u i => G.acked w u i ∨
        w = v ∧ u = x.term ∧ i = x.prev + x.entries.length } := by
  obtain ⟨R, hR, hprev, hseg, hlen, hd⟩ := h.sent x hx
  have hreigned := h.reigned _ R hR
  have hmade := h.made v
  obtain ⟨hb, hl⟩ := bounds_of_stampAt hmatch
  have hends : (G.log v).splice x.prev x.entries = G.log v ∨
      ((G.log v).splice x.prev x.entries).lastIndex = x.prev + x.entries.length :=
    splice_eq_or_lastIndex hb hl
  have hmat : Matching (G.log v) R.log := fun i a hi hi' =>
    (hmade.same_of_stampAt hreigned.made hi hi').toAgreesUpTo
  have hbase : R.log.base = ((G.log v).splice x.prev x.entries).base := by
    rw [splice_base, hreigned.made.base, hmade.base]
  have hsame : SameUpTo ((G.log v).splice x.prev x.entries) R.log
      (x.prev + x.entries.length) :=
    ⟨agreesUpTo_splice hmat hmatch hprev hseg, hbase⟩
  -- whatever was common with the leader's log stays
  have hstays : ∀ {i}, SameUpTo (G.log v) R.log i →
      SameUpTo ((G.log v).splice x.prev x.entries) R.log i := fun hi =>
    ⟨hi.toAgreesUpTo.splice hmat hmatch hprev hseg, hbase⟩
  have hlog : Function.update G.log v ((G.log v).splice x.prev x.entries) v =
      (G.log v).splice x.prev x.entries := Function.update_self ..
  have hother : ∀ {w}, w ≠ v →
      Function.update G.log v ((G.log v).splice x.prev x.entries) w = G.log w :=
    fun hw => Function.update_of_ne hw _ _
  have hvouch : ∀ {w s i R'}, Vouched G.reign (fun w u i => G.acked w u i ∨
      w = v ∧ u = x.term ∧ i = x.prev + x.entries.length) w s i R' →
      Vouched G.reign G.acked w s i R' ∨
        w = v ∧ s = x.term ∧ R' = R ∧ i ≤ x.prev + x.entries.length := by
    rintro w s i R' ⟨⟨j, hij, hj | ⟨rfl, rfl, rfl⟩⟩, hR', hi⟩
    · exact Or.inl ⟨⟨j, hij, hj⟩, hR', hi⟩
    · cases hR.symm.trans hR'
      exact Or.inr ⟨rfl, rfl, rfl, hij⟩
  have hgrown : ∀ w s j, G.acked w s j → G.acked w s j ∨
      w = v ∧ s = x.term ∧ j = x.prev + x.entries.length := fun _ _ _ hj => Or.inl hj
  refine { h with
    made := ?_
    leader := ?_
    acked := ?_
    current := ?_
    kept := ?_
    pledged := ?_
    endorsed := ?_
    sent := ?_
    committed := ?_ }
  · intro w
    by_cases hw : w = v
    · subst hw
      dsimp only
      rw [hlog]
      rcases hends with heq | hend
      · rw [heq]
        exact hmade
      · rw [← hterm]
        exact hreigned.made.of_same hsame (Nat.le_of_eq hend)
    · dsimp only
      rw [hother hw]
      exact h.made w
  · intro u R' hR'
    refine ⟨(h.leader u R' hR').1, fun hu => ?_⟩
    have hlead := (h.leader u R' hR').2 hu
    by_cases hw : R'.leader = v
    · -- a leader has what it sent already
      subst hw
      dsimp only at hu
      rw [hterm, hu] at hR
      cases hR.symm.trans hR'
      refine hlog.trans ?_
      rw [hlead]
      refine splice_of_match fun k e he => ?_
      have hk := (List.getElem?_eq_some_iff.mp he).1
      exact stampAt_of_entryAt ((hseg k hk).trans he)
    · exact (hother hw).trans hlead
  · rintro w s j (hj | ⟨rfl, rfl, rfl⟩)
    · exact h.acked w s j hj
    · exact ⟨Nat.le_of_eq hterm, R, hR, hlen⟩
  · intro w j R' hj hR'
    by_cases hw : w = v
    · subst hw
      dsimp only at hR' ⊢
      rw [hlog]
      rw [← hterm] at hR'
      cases hR.symm.trans hR'
      rcases hj with hj | ⟨_, _, rfl⟩
      · exact hstays (h.current w j R hj (hterm ▸ hR))
      · exact hsame
    · dsimp only
      rw [hother hw]
      rcases hj with hj | ⟨rfl, _⟩
      · exact h.current w j R' hj hR'
      · exact absurd rfl hw
  · intro w s i R' hw'
    by_cases hw : w = v
    · subst hw
      dsimp only
      rw [hlog]
      rcases hvouch hw' with hold | ⟨_, rfl, rfl, hi⟩
      · rcases h.kept w s i R' hold with hlost | hkept
        · exact Or.inl hlost
        have hs : s ≤ x.term := by
          obtain ⟨j, _, hj⟩ := hold.acked
          rw [hterm]
          exact (h.acked w s j hj).1
        rcases Nat.eq_or_lt_of_le hs with rfl | hlt
        · cases hR.symm.trans hold.reign
          exact Or.inr (hstays hkept)
        · by_cases hno : SameUpTo R.stood R'.log i
          · have hlead := hreigned.same_of_stood hno hold.stamp
            exact Or.inr ((hstays (hkept.trans hlead.symm)).trans hlead)
          · exact Or.inl ⟨x.term, R, hlt, Nat.lt_succ_of_le (Nat.le_of_eq hterm), hR, hno⟩
      · exact Or.inr (hsame.mono hi)
    · dsimp only
      rw [hother hw]
      rcases hvouch hw' with hold | ⟨rfl, _⟩
      · exact h.kept w s i R' hold
      · exact absurd rfl hw
  · intro w u d S hw hu hS s i R' hsu hw'
    rcases hvouch hw' with hold | ⟨rfl, rfl, _⟩
    · exact h.pledged w u d S hw hu hS s i R' hsu hold
    · have hle := (h.voted _ u d hw).1
      omega
  · intro u R' hR' w hw s i R₁ hsu hw'
    rcases hvouch hw' with hold | ⟨rfl, rfl, _⟩
    · exact h.endorsed u R' hR' w hw s i R₁ hsu hold
    · have hle := (h.voted _ u _ ((h.elected u R' hR').2 _ hw)).1
      omega
  · intro y hy
    obtain ⟨R', hR', hprev', hseg', hlen', hd'⟩ := h.sent y hy
    exact ⟨R', hR', hprev', hseg', hlen', hd'.grows (.refl _) hgrown⟩
  · intro w
    by_cases hw : w = v
    · subst hw
      dsimp only
      rw [hlog, Function.update_self]
      refine Decided.grows ?_ (.refl _) hgrown
      rcases Nat.le_total (G.committed w) (min x.commit (x.prev + x.entries.length)) with
        hle | hle
      · rw [Nat.max_eq_right hle]
        have hmin := (hd.mono (Nat.le_refl _) (Nat.min_le_left _ _)).same
          (hsame.mono (Nat.min_le_right x.commit _))
        exact hmin.mono (Nat.le_of_eq hterm) (Nat.le_refl _)
      · rw [Nat.max_eq_left hle]
        have hc := h.committed w
        rcases hc with hbase' | ⟨s, i, R', hs, hk, hchosen, hold⟩
        · exact Or.inl hbase'
        · have hlead := h.complete hmeet hchosen (hterm ▸ hs) hR
          have hboth := (hlead.mono hk)
          exact Or.inr ⟨s, i, R', hs, hk, hchosen,
            (hstays (hold.trans hboth.symm)).trans hboth⟩
    · dsimp only
      rw [hother hw, Function.update_of_ne hw]
      exact (h.committed w).grows (.refl _) hgrown

/-! ## §6  Runs -/

section Runs

/-- What is on record stays on record. -/
structure Records (G G' : Group ν α) : Prop where
  term : ∀ v, G.term v ≤ G'.term v
  voted : ∀ v t c, G.voted v t c → G'.voted v t c
  stood : ∀ v t S, G.stood v t = some S → G'.stood v t = some S
  reign : Grows G.reign G'.reign
  sent : ∀ x, G.sent x → G'.sent x
  acked : ∀ v t j, G.acked v t j → G'.acked v t j

omit [DecidableEq ν] [Stamped α ℕ] in
theorem Records.refl (G : Group ν α) : Records G G where
  term _ := Nat.le_refl _
  voted _ _ _ h := h
  stood _ _ _ h := h
  reign := .refl _
  sent _ h := h
  acked _ _ _ h := h

omit [DecidableEq ν] [Stamped α ℕ] in
theorem Records.trans {G'' : Group ν α} (h : Records G G') (h' : Records G' G'') :
    Records G G'' where
  term v := Nat.le_trans (h.term v) (h'.term v)
  voted v t c hc := h'.voted v t c (h.voted v t c hc)
  stood v t S hS := h'.stood v t S (h.stood v t S hS)
  reign := h.reign.trans h'.reign
  sent x hx := h'.sent x (h.sent x hx)
  acked v t j hj := h'.acked v t j (h.acked v t j hj)

/-- Nothing about any node but `v` has changed. -/
structure Apart (v : ν) (G G' : Group ν α) : Prop where
  term : ∀ w, w ≠ v → G'.term w = G.term w
  log : ∀ w, w ≠ v → G'.log w = G.log w
  committed : ∀ w, w ≠ v → G'.committed w = G.committed w
  voted : ∀ w, w ≠ v → ∀ t c, G'.voted w t c → G.voted w t c
  leader : ∀ w, w ≠ v → ∀ t R, G'.reign t = some R → R.leader = w →
    ∃ R₀, G.reign t = some R₀ ∧ R₀.leader = w

omit [DecidableEq ν] [Stamped α ℕ] in
theorem Apart.refl (v : ν) (G : Group ν α) : Apart v G G where
  term _ _ := rfl
  log _ _ := rfl
  committed _ _ := rfl
  voted _ _ _ _ h := h
  leader _ _ _ R hR hl := ⟨R, hR, hl⟩

omit [DecidableEq ν] [Stamped α ℕ] in
theorem Apart.trans {G'' : Group ν α} (h : Apart v G G') (h' : Apart v G' G'') :
    Apart v G G'' where
  term w hw := (h'.term w hw).trans (h.term w hw)
  log w hw := (h'.log w hw).trans (h.log w hw)
  committed w hw := (h'.committed w hw).trans (h.committed w hw)
  voted w hw t c hc := h.voted w hw t c (h'.voted w hw t c hc)
  leader w hw t R hR hl := by
    obtain ⟨R₀, hR₀, hl₀⟩ := h'.leader w hw t R hR hl
    exact h.leader w hw t R₀ hR₀ hl₀

/-- A step is the business of one node. -/
theorem Step.apart (hstep : Step Quorum v G G') : Apart v G G' := by
  cases hstep with
  | enter hv =>
      exact { Apart.refl v G with term := fun w hw => Function.update_of_ne hw _ _ }
  | stand hv =>
      refine { Apart.refl v G with
        term := fun w hw => Function.update_of_ne hw _ _
        voted := ?_ }
      rintro w hw t c (hc | ⟨rfl, _⟩)
      · exact hc
      · exact absurd rfl hw
  | vote hstood hfree hup =>
      refine { Apart.refl v G with voted := ?_ }
      rintro w hw t c (hc | ⟨rfl, _⟩)
      · exact hc
      · exact absurd rfl hw
  | elect hstood hnot hwon =>
      refine { Apart.refl v G with leader := ?_ }
      intro w hw t R hR hl
      by_cases ht : t = G.term v
      · subst ht
        cases (Function.update_self ..).symm.trans hR
        exact absurd hl.symm hw
      · exact ⟨R, (Function.update_of_ne ht _ _).symm.trans hR, hl⟩
  | append hv hR hterm hes =>
      rename_i R s es
      subst hv
      refine { Apart.refl _ G with
        log := fun w hw => Function.update_of_ne hw _ _
        leader := ?_ }
      intro w hw t R' hR' hl
      by_cases ht : t = s
      · subst ht
        cases (Function.update_self ..).symm.trans hR'
        exact absurd hl.symm hw
      · exact ⟨R', (Function.update_of_ne ht _ _).symm.trans hR', hl⟩
  | send hR hprev hk hc => exact { Apart.refl v G with }
  | receive hx hterm hmatch =>
      exact { Apart.refl v G with
        log := fun w hw => Function.update_of_ne hw _ _
        committed := fun w hw => Function.update_of_ne hw _ _ }
  | commit hv hR hterm hstamp hQ hacked =>
      subst hv
      exact { Apart.refl _ G with committed := fun w hw => Function.update_of_ne hw _ _ }

variable (hmeet : ∀ S S', Quorum S → Quorum S' → ∃ v, v ∈ S ∧ v ∈ S')

include hmeet

/-- One step. -/
theorem Sound.step (h : Sound Quorum b s₀ G) (hstep : Step Quorum v G G') :
    Sound Quorum b s₀ G' ∧ Records G G' := by
  have hrefl := Records.refl G
  cases hstep with
  | enter hv => exact ⟨h.enter hv, { hrefl with term := le_update hv }⟩
  | stand hv =>
      refine ⟨h.stand hv, { hrefl with
        term := le_update hv
        voted := fun _ _ _ hc => Or.inl hc
        stood := ?_ }⟩
      intro w u S hS
      refine (if_neg ?_).trans hS
      rintro ⟨rfl, rfl⟩
      rw [h.stood_none hv] at hS
      cases hS
  | vote hstood hfree hup =>
      exact ⟨h.vote hstood hfree hup, { hrefl with voted := fun _ _ _ hc => Or.inl hc }⟩
  | elect hstood hnot hwon =>
      obtain ⟨hg, hsound⟩ := h.elect hmeet hstood hnot hwon
      exact ⟨hsound, { hrefl with reign := hg }⟩
  | append _ hR hterm hes =>
      obtain ⟨hg, hsound⟩ := h.append hR hterm hes
      exact ⟨hsound, { hrefl with reign := hg, acked := fun _ _ _ hj => Or.inl hj }⟩
  | send hR hprev hk hc =>
      exact ⟨h.send hR hprev hk hc, { hrefl with sent := fun _ hx => Or.inl hx }⟩
  | receive hx hterm hmatch =>
      exact ⟨h.receive hmeet hx hterm hmatch,
        { hrefl with acked := fun _ _ _ hj => Or.inl hj }⟩
  | commit _ hR hterm hstamp hQ hacked =>
      exact ⟨h.commit hR hterm hstamp hQ hacked, { hrefl with }⟩

theorem Sound.moves (h : Sound Quorum b s₀ G) (hmoves : Moves Quorum v G G') :
    Sound Quorum b s₀ G' ∧ Records G G' ∧ Apart v G G' := by
  induction hmoves with
  | refl => exact ⟨h, .refl G, .refl v G⟩
  | step _ hstep ih =>
      obtain ⟨hsound, hrec, hapart⟩ := ih
      obtain ⟨hsound', hrec'⟩ := hsound.step hmeet hstep
      exact ⟨hsound', hrec.trans hrec', hapart.trans hstep.apart⟩

theorem Sound.run (h : Sound Quorum b s₀ G) (hrun : Reachable Quorum G G') :
    Sound Quorum b s₀ G' ∧ Records G G' := by
  induction hrun with
  | refl => exact ⟨h, .refl G⟩
  | step _ hstep ih =>
      obtain ⟨hsound, hrec⟩ := ih
      obtain ⟨hsound', hrec'⟩ := hsound.step hmeet hstep
      exact ⟨hsound', hrec.trans hrec'⟩

/-- What two nodes have committed, at whatever times, is the same. -/
theorem Sound.same_of_committed (h : Sound Quorum b s₀ G) (hrun : Reachable Quorum G G')
    {v w : ν} (hv : k ≤ G.committed v) (hw : k ≤ G'.committed w) :
    SameUpTo (G.log v) (G'.log w) k := by
  obtain ⟨hsound, hrec⟩ := h.run hmeet hrun
  exact hsound.same_of_decided hmeet ((h.made v).grows hrec.reign) (hsound.made w)
    ((h.committed v).grows hrec.reign hrec.acked) (hsound.committed w) hv hw

/-- Whoever leads a later term has all that was committed before. -/
theorem Sound.same_of_reign (h : Sound Quorum b s₀ G) (hrun : Reachable Quorum G G')
    (hk : k ≤ G.committed v) (hR : G'.reign t = some R) (ht : G.term v ≤ t) :
    SameUpTo R.log (G.log v) k := by
  obtain ⟨hsound, hrec⟩ := h.run hmeet hrun
  rcases (h.committed v).grows hrec.reign hrec.acked with hb | ⟨s, i, R', hs, hki, hc, hsame⟩
  · exact ((hsound.reigned t R hR).made.same_base ((h.made v).grows hrec.reign)).mono
      (Nat.le_trans hk hb)
  · have hlog := hsound.complete hmeet hc (Nat.le_trans hs ht) hR
    exact (hlog.mono (Nat.le_trans hk hki)).trans (hsame.mono hk).symm

end Runs

theorem Moves.reachable (h : Moves Quorum v G G') : Reachable Quorum G G' := by
  induction h with
  | refl => exact .refl
  | step _ hstep ih => exact ih.step hstep

theorem Moves.trans {G'' : Group ν α} (h : Moves Quorum v G G') (h' : Moves Quorum v G' G'') :
    Moves Quorum v G G'' := by
  induction h' with
  | refl => exact h
  | step _ hstep ih => exact ih.step hstep

theorem Reachable.trans {G'' : Group ν α} (h : Reachable Quorum G G')
    (h' : Reachable Quorum G' G'') : Reachable Quorum G G'' := by
  induction h' with
  | refl => exact h
  | step _ hstep ih => exact ih.step hstep

end Steps

end Consensus
