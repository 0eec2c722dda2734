import RsRaft.RaftLogView

/-!
# An acknowledged prefix is never lost

A leader's log is offered to a follower in pieces, in any order and any number
of times. What carries the argument is one agreement between the two logs: an
accepted piece extends it, and no later piece cuts into it.

§1 pieces of a leader's log · §2 one piece · §3 any sequence of pieces.
-/

namespace RsRaft

namespace RaftLog

open PlainLog

variable {T : Type} [Storage T] {F : RaftLog T} {P M : PlainLog Entry ℕ}

/-! ## §1  Pieces of a leader's log -/

/-- A leader's log: the entries sit at their indices and carry real terms. -/
structure LeaderLog (M : PlainLog Entry ℕ) : Prop where
  indexed : Indexed M
  real : ∀ e ∈ M.tail, 1 ≤ e.term

/-- One call of `maybe_append`: `count` entries behind `prev`, and a commit index. -/
structure Piece where
  prev : ℕ
  count : ℕ
  commit : ℕ
deriving DecidableEq, Repr

/-- The piece can be cut out of `M` behind index `base`. -/
structure Piece.Fits (p : Piece) (M : PlainLog Entry ℕ) (base : ℕ) : Prop where
  base_le : base ≤ p.prev
  count_le : p.prev + p.count ≤ M.lastIndex
  commit_le : p.commit ≤ M.lastIndex

/-- `F.maybe_append(i, L.term(i), c, L[i+1..i+k])`. -/
def offer (M : PlainLog Entry ℕ) (p : Piece) (F : RaftLog T) :
    Except Panic (Option ℕ × RaftLog T) :=
  F.maybeAppend p.prev ((M.stampAt p.prev).getD 0) p.commit (M.segment p.prev p.count)

/-- The replies to a sequence of pieces and the log afterwards. -/
def offers (M : PlainLog Entry ℕ) : List Piece → RaftLog T →
    Except Panic (List (Option ℕ) × RaftLog T)
  | [], F => .ok ([], F)
  | p :: ps, F => do
      let r ← offer M p F
      let rs ← offers M ps r.2
      pure (r.1 :: rs.1, rs.2)

omit [Storage T] in
theorem LeaderLog.consecutive_segment (hM : LeaderLog M) {p : Piece} {base : ℕ}
    (hbase : M.base ≤ base) (hp : p.Fits M base) :
    Consecutive p.prev (M.segment p.prev p.count) := by
  intro k e he
  have hlow := hp.base_le
  have hk := (List.getElem?_eq_some_iff.mp he).1
  rw [length_segment (by omega) hp.count_le] at hk
  rw [segment_getElem? (by omega) hk] at he
  exact hM.indexed _ e he

omit [Storage T] in
theorem LeaderLog.real_segment (hM : LeaderLog M) (p : Piece) :
    ∀ e ∈ M.segment p.prev p.count, 1 ≤ e.term := by
  intro e he
  exact hM.real e (List.mem_of_mem_drop (List.mem_of_mem_take he))

omit [Storage T] in
/-- Terms read alike are held: behind the end of a log the term would be `0`, which no
entry of `M` carries. -/
theorem exists_same_term (hreal : ∀ e ∈ M.tail, 1 ≤ e.term) (hbase : M.base ≤ P.base) {i : ℕ}
    (hlow : P.base ≤ i) (hhigh : i ≤ M.lastIndex)
    (heq : (P.stampAt i).getD 0 = (M.stampAt i).getD 0) :
    ∃ t, P.stampAt i = some t ∧ M.stampAt i = some t := by
  obtain ⟨t, ht⟩ := exists_stampAt (Nat.le_trans hbase hlow) hhigh
  refine ⟨t, ?_, ht⟩
  rw [ht, Option.getD_some] at heq
  cases hP : P.stampAt i with
  | some s =>
      rw [hP, Option.getD_some] at heq
      rw [heq]
  | none =>
      rw [hP, Option.getD_none] at heq
      have hout := stampAt_eq_none_iff.mp hP
      have hgt : P.base < i := by
        have := P.base_le_lastIndex
        omega
      rw [stampAt_of_gt (Nat.lt_of_le_of_lt hbase hgt)] at ht
      obtain ⟨e, he, rfl⟩ := Option.map_eq_some_iff.mp ht
      have hpos := hreal e (mem_tail_iff.mpr ⟨_, he⟩)
      rw [stamp_entry] at heq
      omega

/-! ## §2  One piece -/

/-- The follower's log matches the leader's and agrees with it as far as it is
committed. -/
structure Tracks (M : PlainLog Entry ℕ) (F : RaftLog T) (P : PlainLog Entry ℕ) : Prop where
  presents : F.Presents P
  base : M.base ≤ P.base
  matching : Matching P M
  committed : AgreesUpTo P M F.committed

/-- Equal terms at the previous index are terms of entries, or of the base. -/
theorem Tracks.stampAt_prev (h : Tracks M F P) (hM : LeaderLog M) {p : Piece}
    (hp : p.Fits M P.base)
    (heq : (P.stampAt p.prev).getD 0 = (M.stampAt p.prev).getD 0) :
    ∃ t, P.stampAt p.prev = some t ∧ M.stampAt p.prev = some t := by
  have hhigh := hp.count_le
  exact exists_same_term hM.real h.base hp.base_le (by omega) heq

/-- Agreement up to the commit index keeps conflicts behind it. -/
theorem Tracks.committed_le_mismatch (h : Tracks M F P) {p : Piece} (hp : p.Fits M P.base)
    {k : ℕ} (hk : P.firstMismatch p.prev (M.segment p.prev p.count) = some k) :
    F.committed ≤ p.prev + k := by
  by_contra hlt
  have hbase := h.base
  have hlow := hp.base_le
  obtain ⟨⟨e, he, hne⟩, _⟩ := firstMismatch_some hk
  have hlen := (List.getElem?_eq_some_iff.mp he).1
  rw [length_segment (by omega) hp.count_le] at hlen
  rw [segment_getElem? (by omega) hlen] at he
  apply hne
  rw [h.committed.stamp _ (by omega) (by omega)]
  exact stampAt_of_entryAt he

/-- A refused piece changes nothing, an accepted one extends the agreement, and
offering it once more changes nothing. -/
theorem Tracks.offer (h : Tracks M F P) (hM : LeaderLog M) {p : Piece}
    (hp : p.Fits M P.base) :
    ∃ a F' P', RaftLog.offer M p F = .ok (a, F') ∧ Tracks M F' P' ∧ P'.base = P.base ∧
      (∀ n, AgreesUpTo P M n → AgreesUpTo P' M n) ∧
      (∀ n, a = some n → AgreesUpTo P' M n) ∧
      (a = none → F' = F) ∧ RaftLog.offer M p F' = .ok (a, F') := by
  by_cases heq : (P.stampAt p.prev).getD 0 = (M.stampAt p.prev).getD 0
  · obtain ⟨t, hP, hMt⟩ := h.stampAt_prev hM hp heq
    obtain ⟨hb, hl⟩ := bounds_of_stampAt hP
    have hbase := h.base
    have hes := hM.consecutive_segment hbase hp
    have hreal := hM.real_segment p
    have hseg : IsSegment M p.prev (M.segment p.prev p.count) :=
      isSegment_segment (by omega) hp.count_le
    have hlen : (M.segment p.prev p.count).length = p.count :=
      length_segment (by omega) hp.count_le
    have hread : (M.stampAt p.prev).getD 0 = t := by rw [hMt, Option.getD_some]
    -- the piece is spliced in: the agreement reaches its end, or as far as before
    obtain ⟨u, hrun, hpres, _⟩ := h.presents.maybeAppend_accept hP p.commit hes hreal
      fun k hk => h.committed_le_mismatch hp hk
    rw [hlen] at hrun
    have hagree := agreesUpTo_splice h.matching hP hMt hseg
    rw [hlen] at hagree
    have hcom : AgreesUpTo (P.splice p.prev (M.segment p.prev p.count)) M
        (max F.committed (min p.commit (p.prev + p.count))) := by
      rcases Nat.le_total F.committed (min p.commit (p.prev + p.count)) with hle | hle
      · rw [Nat.max_eq_right hle]
        exact hagree.mono (Nat.min_le_right _ _)
      · rw [Nat.max_eq_left hle]
        exact h.committed.splice h.matching hP hMt hseg
    have htracks : Tracks M { F with
        unstable := u
        committed := max F.committed (min p.commit (p.prev + p.count)) }
        (P.splice p.prev (M.segment p.prev p.count)) :=
      ⟨hpres.with_cursors _ _, by rw [splice_base]; exact hbase,
        h.matching.splice hP hMt hseg, hcom⟩
    refine ⟨_, _, _, by rw [RaftLog.offer, hread]; exact hrun, htracks, splice_base, ?_, ?_,
      ?_, ?_⟩
    · intro n hn
      exact hn.splice h.matching hP hMt hseg
    · rintro n ⟨⟩
      exact hagree
    · rintro ⟨⟩
    · -- the second time everything matches
      have hP' : (P.splice p.prev (M.segment p.prev p.count)).stampAt p.prev = some t := by
        rw [stampAt_splice_le hl (Nat.le_refl _), hP]
      have hnone : (P.splice p.prev (M.segment p.prev p.count)).firstMismatch p.prev
          (M.segment p.prev p.count) = none := firstMismatch_splice hb hl
      obtain ⟨u', hrun', _, hu'⟩ := htracks.presents.maybeAppend_accept hP' p.commit hes hreal
        fun k hk => by rw [hnone] at hk; cases hk
      rw [RaftLog.offer, hread, hrun', hu' hnone, hlen]
      simp only [Except.ok.injEq, Prod.mk.injEq, true_and, RaftLog.mk.injEq, and_true]
      omega
  · have hrun := h.presents.maybeAppend_refuse heq p.commit (M.segment p.prev p.count)
    refine ⟨none, F, P, hrun, h, rfl, fun n hn => hn, ?_, fun _ => rfl, hrun⟩
    rintro n ⟨⟩

/-! ## §3  Any sequence of pieces -/

/-- The agreement only grows, so an acknowledgement outlives every later piece. -/
theorem Tracks.offers (hM : LeaderLog M) {ps : List Piece} (h : Tracks M F P)
    (hps : ∀ p ∈ ps, p.Fits M P.base) :
    ∃ as F' P', RaftLog.offers M ps F = .ok (as, F') ∧ Tracks M F' P' ∧ P'.base = P.base ∧
      (∀ n, AgreesUpTo P M n → AgreesUpTo P' M n) ∧
      ∀ n, some n ∈ as → AgreesUpTo P' M n := by
  induction ps generalizing F P with
  | nil => exact ⟨[], F, P, rfl, h, rfl, fun _ hn => hn, by simp⟩
  | cons p ps ih =>
      obtain ⟨a, F₁, P₁, hrun, h₁, hbase₁, hkeep, hack, _, _⟩ :=
        h.offer hM (hps p List.mem_cons_self)
      have hrest₁ : ∀ q ∈ ps, q.Fits M P₁.base := by
        intro q hq
        rw [hbase₁]
        exact hps q (List.mem_cons_of_mem _ hq)
      obtain ⟨as, F₂, P₂, hrest, h₂, hbase₂, hkeep', hack'⟩ := ih h₁ hrest₁
      refine ⟨a :: as, F₂, P₂, ?_, h₂, hbase₂.trans hbase₁, fun n hn => hkeep' n (hkeep n hn), ?_⟩
      · rw [RaftLog.offers, hrun, ok_bind, hrest]
        rfl
      · intro n hn
        rcases List.mem_cons.mp hn with heq | hmem
        · exact hkeep' n (hack n heq.symm)
        · exact hack' n hmem

/-- However the pieces of a leader's log arrive, no call panics, the logs keep
matching, and what was acknowledged once agrees with the leader for good; and of
the next call, a refusal changes nothing and a repetition changes nothing more. -/
theorem acked_prefix_kept (hM : LeaderLog M) (hF : F.Presents P) (hbase : M.base ≤ P.base)
    (hmat : Matching P M) (hcom : AgreesUpTo P M F.committed) (ps : List Piece)
    (hps : ∀ p ∈ ps, p.Fits M P.base) :
    ∃ as F' P', RaftLog.offers M ps F = .ok (as, F') ∧ F'.Presents P' ∧ P'.base = P.base ∧
      Matching P' M ∧ (∀ n, some n ∈ as → AgreesUpTo P' M n) ∧
      ∀ p, p.Fits M P.base → ∃ a F'', RaftLog.offer M p F' = .ok (a, F'') ∧
        (a = none → F'' = F') ∧ RaftLog.offer M p F'' = .ok (a, F'') := by
  obtain ⟨as, F', P', hrun, htracks, hbase', _, hack⟩ :=
    Tracks.offers hM ⟨hF, hbase, hmat, hcom⟩ hps
  refine ⟨as, F', P', hrun, htracks.presents, hbase', htracks.matching, hack, ?_⟩
  intro p hp
  obtain ⟨a, F'', _, hoffer, _, _, _, _, hnone, hagain⟩ :=
    htracks.offer hM (p := p) (by rw [hbase']; exact hp)
  exact ⟨a, F'', hoffer, hnone, hagain⟩

/-! A follower whose third entry was never acknowledged: the leader's entries
come, then a delayed shorter piece. -/

def fourEntries : PlainLog Entry ℕ :=
  ⟨0, 0, [{ term := 1, index := 1 }, { term := 1, index := 2 }, { term := 3, index := 3 },
    { term := 3, index := 4 }]⟩

def threeEntries : PlainLog Entry ℕ :=
  ⟨0, 0, [{ term := 1, index := 1 }, { term := 1, index := 2 }, { term := 2, index := 3 }]⟩

def laggingLog : RaftLog MemStorage :=
  { store := {}
    unstable := { offset := 1, entries := threeEntries.tail }
    committed := 1
    applied := 0 }

theorem agreesUpTo_threeEntries : AgreesUpTo threeEntries fourEntries 2 where
  stamp j _ hj := (by decide : ∀ j ≤ 2, threeEntries.stampAt j = fourEntries.stampAt j) j hj
  entry j _ hj := (by decide : ∀ j ≤ 2, threeEntries.entryAt j = fourEntries.entryAt j) j hj

theorem matching_threeEntries : Matching threeEntries fourEntries := by
  intro i t hP hM
  have hle : i ≤ 3 := (bounds_of_stampAt hP).2
  rcases Nat.eq_or_lt_of_le hle with rfl | hlt
  · rw [← hM] at hP
    exact absurd hP (by decide)
  · exact agreesUpTo_threeEntries.mono (by omega)

theorem leaderLog_fourEntries : LeaderLog fourEntries where
  indexed := by
    intro i e he
    have hi := (bounds_of_entryAt he).2
    have hall : ∀ i ≤ 4, ∀ e ∈ fourEntries.entryAt i, e.index = i := by decide
    exact hall i hi e he
  real := by decide

theorem laggingLog_keeps :
    ∃ as F' P', offers fourEntries [⟨2, 2, 3⟩, ⟨0, 1, 1⟩] laggingLog = .ok (as, F') ∧
      F'.Presents P' ∧ ∀ n, some n ∈ as → AgreesUpTo P' fourEntries n := by
  have hfits : ∀ p ∈ [(⟨2, 2, 3⟩ : Piece), ⟨0, 1, 1⟩], p.Fits fourEntries threeEntries.base := by
    intro p hp
    rcases List.mem_cons.mp hp with rfl | hp
    · exact ⟨by decide, by decide, by decide⟩
    · rcases List.mem_singleton.mp hp with rfl
      exact ⟨by decide, by decide, by decide⟩
  have hpres : laggingLog.Presents threeEntries :=
    RaftLog.Unstored.presents ⟨MemStorage.holds_empty, rfl, rfl⟩
  obtain ⟨as, F', P', hrun, hF', _, _, hack, _⟩ :=
    acked_prefix_kept leaderLog_fourEntries hpres (by decide) matching_threeEntries
      (agreesUpTo_threeEntries.mono (by decide)) [⟨2, 2, 3⟩, ⟨0, 1, 1⟩] hfits
  exact ⟨as, F', P', hrun, hF', hack⟩

end RaftLog

end RsRaft
