import RsRaft.RaftControl
import RsRaft.RaftLogView
import RsRaft.Run

/-!
# The receiver of append entries

`handler_append_entries` matches the previous entry against the term of the
message. The term the leader sent along for that purpose, `log_term`, is never
looked at, so the answer is the right one only where the two terms decide alike.

§1 runs of the handler · §2 the answer as it should be · §3 when it is given.
-/

namespace RsRaft

namespace RaftLog

variable {T : Type} [Storage T] {log log' : RaftLog T} {i t c : ℕ} {es : List Entry}
  {a : Option ℕ}

/-- Once the terms match, a batch is placed or the call panics. -/
theorem maybeAppend_of_match (ht : log.matchTerm i t = .ok true)
    (h : log.maybeAppend i t c es = .ok (a, log')) : a = some (i + es.length) := by
  unfold maybeAppend at h
  rw [ht, ok_bind, if_pos rfl] at h
  obtain ⟨_, _, h⟩ := bind_eq_ok h
  obtain ⟨_, _, h⟩ := bind_eq_ok h
  obtain ⟨_, _, h⟩ := bind_eq_ok h
  cases h
  rfl

end RaftLog

namespace Raft

open Call PlainLog RaftLog

variable {T : Type} [Storage T] {r : Raft T} {m : Message} {P : PlainLog Entry ℕ}

/-! ## §1  Runs of the handler -/

/-- The handler stops at its reply, which carries no term. -/
def replied (r : Raft T) (log : RaftLog T) (q : Message) : Outcome Panic Event (Raft T) Unit :=
  ⟨.error (.termNotSet .MsgAppendResponse), { r with raftLog := log }, [.handed q]⟩

/-- The reply common to all answers. -/
def appendReply (m : Message) : Message := { to_ := m.from_, msgType := .MsgAppendResponse }

theorem handler_stale (h : m.index < r.raftLog.committed) :
    handlerAppendEntries m r =
      replied r r.raftLog { appendReply m with index := r.raftLog.committed } := by
  unfold handlerAppendEntries handlerAppendEntriesVia
  rw [read_bind_run, ite_run, if_pos h, send_of_term_eq_zero rfl]
  rfl

theorem handler_accepted {n : ℕ} {log' : RaftLog T} (h : ¬ m.index < r.raftLog.committed)
    (hrun : r.raftLog.maybeAppend m.index m.term m.commit m.entries = .ok (some n, log')) :
    handlerAppendEntries m r = replied r log' { appendReply m with index := n } := by
  unfold handlerAppendEntries handlerAppendEntriesVia
  rw [read_bind_run, ite_run, if_neg h, hrun, lift_ok_bind_run, modify_bind_run]
  dsimp only
  rw [send_of_term_eq_zero rfl]
  rfl

theorem handler_refused {li : ℕ} {log' : RaftLog T} (h : ¬ m.index < r.raftLog.committed)
    (hrun : r.raftLog.maybeAppend m.index m.term m.commit m.entries = .ok (none, log'))
    (hli : log'.lastIndex = .ok li) :
    handlerAppendEntries m r =
      replied r log' { appendReply m with index := m.index, reject := true, rejectHint := li } := by
  unfold handlerAppendEntries handlerAppendEntriesVia
  rw [read_bind_run, ite_run, if_neg h, hrun, lift_ok_bind_run, modify_bind_run]
  dsimp only
  rw [hli, lift_ok_bind_run, send_of_term_eq_zero rfl]
  rfl

theorem handler_panicked {p : Panic} (h : ¬ m.index < r.raftLog.committed)
    (hrun : r.raftLog.maybeAppend m.index m.term m.commit m.entries = .error p) :
    handlerAppendEntries m r = ⟨.error p, r, []⟩ := by
  unfold handlerAppendEntries handlerAppendEntriesVia
  rw [read_bind_run, ite_run, if_neg h, hrun, lift_error_bind_run]

/-! ## §2  The answer as it should be -/

/-- An accepted batch is in the log, nothing up to the previous index moves,
what lies behind it goes only at a conflict, and the commit index follows. -/
structure Accepted (P P' : PlainLog Entry ℕ) (m : Message) (log log' : RaftLog T)
    (q : Message) : Prop where
  present : ∀ k e, m.entries[k]? = some e → P'.stampAt (m.index + 1 + k) = some e.term
  kept : P'.base = P.base ∧ ∀ j ≤ m.index,
    P'.entryAt j = P.entryAt j ∧ P'.stampAt j = P.stampAt j
  dropped : ∀ j e, m.index + m.entries.length < j → P.entryAt j = some e →
    P'.entryAt j ≠ some e → ∃ k d t, m.entries[k]? = some d ∧
      P.stampAt (m.index + 1 + k) = some t ∧ t ≠ d.term
  committed : log'.committed = max log.committed (min m.commit (m.index + m.entries.length))
  reply : q.reject = false ∧ q.index = m.index + m.entries.length

/-- A refused batch changes nothing. -/
structure Refused (P : PlainLog Entry ℕ) (m : Message) (log log' : RaftLog T)
    (q : Message) : Prop where
  unchanged : log' = log
  reply : q.reject = true ∧ q.index = m.index ∧ q.rejectHint = P.lastIndex

/-- One reply is handed to `send`, and only the log may have changed: not at all
if the batch lies behind the commit index, by the batch if the log holds an
entry of the leader's `log_term` at the previous index, and not at all
otherwise. -/
def AppendAsClaimed (P : PlainLog Entry ℕ) (m : Message) (r : Raft T) : Prop :=
  ∃ q log' P', (handlerAppendEntries m r).trace = [.handed q] ∧
    (handlerAppendEntries m r).state = { r with raftLog := log' } ∧ log'.Presents P' ∧
    q.to_ = m.from_ ∧ q.msgType = .MsgAppendResponse ∧
    if m.index < r.raftLog.committed then
      log' = r.raftLog ∧ q.index = r.raftLog.committed
    else if P.stampAt m.index = some m.logTerm then Accepted P P' m r.raftLog log' q
    else Refused P m r.raftLog log' q

/-- The term of the message decides about the previous entry like `log_term`. -/
def TermsAgree (P : PlainLog Entry ℕ) (m : Message) : Prop :=
  match P.stampAt m.index with
  | some t => t = m.term ↔ t = m.logTerm
  | none => m.term ≠ 0

/-! ## §3  When it is given -/

/-- A batch whose previous entry is of the message's term is accepted as it should. -/
theorem accepted_of_stampAt (hlog : r.raftLog.Presents P) (hes : Consecutive m.index m.entries)
    (hreal : ∀ e ∈ m.entries, 1 ≤ e.term) (h : ¬ m.index < r.raftLog.committed)
    (ht : P.stampAt m.index = some m.term) :
    ∃ log' P' q, handlerAppendEntries m r = replied r log' q ∧ log'.Presents P' ∧
      q.to_ = m.from_ ∧ q.msgType = .MsgAppendResponse ∧ Accepted P P' m r.raftLog log' q := by
  obtain ⟨hb, hl⟩ := bounds_of_stampAt ht
  obtain ⟨u, hrun, hpres, _⟩ := hlog.maybeAppend_accept ht m.commit hes hreal
    fun k _ => by omega
  refine ⟨_, _, _, handler_accepted h hrun, hpres.with_cursors _ _, rfl, rfl, ?_⟩
  refine ⟨?_, ⟨splice_base, ?_⟩, ?_, rfl, rfl, rfl⟩
  · intro k e he
    exact stampAt_splice hb hl he
  · intro j hj
    exact ⟨entryAt_splice_le hl hj, stampAt_splice_le hl hj⟩
  · intro j e hj he hgone
    exact exists_conflict_of_dropped hb hj he hgone

/-- A batch whose previous entry is not of the message's term is refused as it should. -/
theorem refused_of_mismatch (hlog : r.raftLog.Presents P) (h : ¬ m.index < r.raftLog.committed)
    (ht : (P.stampAt m.index).getD 0 ≠ m.term) :
    ∃ q, handlerAppendEntries m r = replied r r.raftLog q ∧
      q.to_ = m.from_ ∧ q.msgType = .MsgAppendResponse ∧ Refused P m r.raftLog r.raftLog q := by
  have hrun := hlog.maybeAppend_refuse ht m.commit m.entries
  exact ⟨_, handler_refused h hrun hlog.lastIndex, rfl, rfl, rfl, rfl, rfl, rfl⟩

/-- Behind the end of the log, a message of term `0` is never refused. -/
theorem not_refused_outside (hlog : r.raftLog.Presents P) (h : ¬ m.index < r.raftLog.committed)
    (ht : P.stampAt m.index = none) (hzero : m.term = 0) {q : Message}
    (hq : (handlerAppendEntries m r).trace = [.handed q]) : q.reject = false := by
  have hmatch : r.raftLog.matchTerm m.index m.term = .ok true := by
    rw [hlog.matchTerm, ht, hzero]
    rfl
  cases hrun : r.raftLog.maybeAppend m.index m.term m.commit m.entries with
  | error p =>
      rw [handler_panicked h hrun] at hq
      cases hq
  | ok res =>
      obtain ⟨a, log'⟩ := res
      obtain rfl := maybeAppend_of_match hmatch hrun
      rw [handler_accepted h hrun] at hq
      cases hq
      rfl

theorem appendAsClaimed_of_replied {log' : RaftLog T} {P' : PlainLog Entry ℕ} {q : Message}
    (hrun : handlerAppendEntries m r = replied r log' q) (hpres : log'.Presents P')
    (hto : q.to_ = m.from_) (htype : q.msgType = .MsgAppendResponse)
    (hrest : if m.index < r.raftLog.committed then
        log' = r.raftLog ∧ q.index = r.raftLog.committed
      else if P.stampAt m.index = some m.logTerm then Accepted P P' m r.raftLog log' q
      else Refused P m r.raftLog log' q) : AppendAsClaimed P m r := by
  refine ⟨q, log', P', ?_, ?_, hpres, hto, htype, hrest⟩
  · rw [hrun]
    rfl
  · rw [hrun]
    rfl

/-- Where the code accepts, it should if `log_term` is the term of the message. -/
theorem appendAsClaimed_iff_of_accepted (hlog : r.raftLog.Presents P)
    (hes : Consecutive m.index m.entries) (hreal : ∀ e ∈ m.entries, 1 ≤ e.term)
    (h : ¬ m.index < r.raftLog.committed) (ht : P.stampAt m.index = some m.term) :
    AppendAsClaimed P m r ↔ m.term = m.logTerm := by
  obtain ⟨log', P', q, hrun, hpres, hto, htype, haccepted⟩ :=
    accepted_of_stampAt hlog hes hreal h ht
  constructor
  · rintro ⟨q', _, _, htrace, _, _, _, _, hrest⟩
    by_contra hne
    have hclaim : ¬ P.stampAt m.index = some m.logTerm := by
      rw [ht]
      exact fun heq => hne (Option.some.inj heq)
    rw [if_neg h, if_neg hclaim] at hrest
    rw [hrun] at htrace
    cases htrace
    have hreject := hrest.reply.1
    rw [haccepted.reply.1] at hreject
    cases hreject
  · intro hlt
    apply appendAsClaimed_of_replied hrun hpres hto htype
    rw [if_neg h, if_pos (by rw [ht, hlt])]
    exact haccepted

/-- Where it refuses for the entry it holds, it should if that entry is not of
`log_term` either. -/
theorem appendAsClaimed_iff_of_refused (hlog : r.raftLog.Presents P)
    (h : ¬ m.index < r.raftLog.committed) {t : ℕ} (ht : P.stampAt m.index = some t)
    (hterm : t ≠ m.term) : AppendAsClaimed P m r ↔ t ≠ m.logTerm := by
  obtain ⟨q, hrun, hto, htype, hrefused⟩ := refused_of_mismatch hlog h (by rw [ht]; exact hterm)
  constructor
  · rintro ⟨q', _, _, htrace, _, _, _, _, hrest⟩ hlt
    rw [if_neg h, if_pos (by rw [ht, hlt])] at hrest
    rw [hrun] at htrace
    cases htrace
    have hreject := hrest.reply.1
    rw [hrefused.reply.1] at hreject
    cases hreject
  · intro hne
    have hclaim : ¬ P.stampAt m.index = some m.logTerm := by
      rw [ht]
      exact fun heq => hne (Option.some.inj heq)
    apply appendAsClaimed_of_replied hrun hlog hto htype
    rw [if_neg h, if_neg hclaim]
    exact hrefused

/-- Outside of the log it should refuse, and does unless the term is `0`. -/
theorem appendAsClaimed_iff_of_outside (hlog : r.raftLog.Presents P)
    (h : ¬ m.index < r.raftLog.committed) (ht : P.stampAt m.index = none) :
    AppendAsClaimed P m r ↔ m.term ≠ 0 := by
  have hclaim : ¬ P.stampAt m.index = some m.logTerm := by
    rw [ht]
    exact fun heq => by cases heq
  constructor
  · rintro ⟨q, log', P', htrace, _, _, _, _, hrest⟩ hzero
    rw [if_neg h, if_neg hclaim] at hrest
    have hreject := not_refused_outside hlog h ht hzero htrace
    rw [hrest.reply.1] at hreject
    cases hreject
  · intro hpos
    obtain ⟨q, hrun, hto, htype, hrefused⟩ :=
      refused_of_mismatch hlog h (by rw [ht]; exact Ne.symm hpos)
    apply appendAsClaimed_of_replied hrun hlog hto htype
    rw [if_neg h, if_neg hclaim]
    exact hrefused

/-- The handler answers as it should exactly if the batch lies behind the commit
index or the two terms decide alike. -/
theorem appendAsClaimed_iff (hlog : r.raftLog.Presents P)
    (hes : Consecutive m.index m.entries) (hreal : ∀ e ∈ m.entries, 1 ≤ e.term) :
    AppendAsClaimed P m r ↔ m.index < r.raftLog.committed ∨ TermsAgree P m := by
  by_cases hstale : m.index < r.raftLog.committed
  · refine ⟨fun _ => Or.inl hstale, fun _ => ?_⟩
    apply appendAsClaimed_of_replied (handler_stale hstale) hlog rfl rfl
    rw [if_pos hstale]
    exact ⟨rfl, rfl⟩
  rw [or_iff_right hstale]
  unfold TermsAgree
  cases hstamp : P.stampAt m.index with
  | none => exact appendAsClaimed_iff_of_outside hlog hstale hstamp
  | some t =>
      dsimp only
      by_cases ht : t = m.term
      · subst ht
        rw [appendAsClaimed_iff_of_accepted hlog hes hreal hstale hstamp, iff_true_left rfl]
      · rw [appendAsClaimed_iff_of_refused hlog hstale hstamp ht, iff_false_left ht]

/-! A follower of term `2` that still holds an entry of term `1`: the batch
behind its last entry is accepted, the one behind the entry of term `1` is not. -/

def twoTerms : PlainLog Entry ℕ := ⟨0, 0, [{ term := 1, index := 1 }, { term := 2, index := 2 }]⟩

def followerNode : Raft MemStorage :=
  { memNode 1 [1, 2, 3] [] with
    term := 2
    leaderId := 2
    raftLog :=
      { store := {}
        unstable := { offset := 1, entries := twoTerms.tail }
        committed := 1
        applied := 0 } }

def appendBehind (index logTerm : ℕ) (entries : List Entry) : Message :=
  { msgType := .MsgAppend
    from_ := 2
    to_ := 1
    term := 2
    index := index
    logTerm := logTerm
    entries := entries
    commit := 1 }

theorem presents_twoTerms : followerNode.raftLog.Presents twoTerms :=
  RaftLog.Unstored.presents ⟨MemStorage.holds_empty, rfl, rfl⟩

theorem appendAsClaimed_last :
    AppendAsClaimed twoTerms (appendBehind 2 2 [{ term := 2, index := 3 }]) followerNode := by
  have hes : Consecutive 2 [({ term := 2, index := 3 } : Entry)] := by
    intro k e he
    cases k with
    | zero =>
        cases he
        rfl
    | succ k => cases he
  apply (appendAsClaimed_iff presents_twoTerms hes (by decide)).mpr
  exact Or.inr (iff_of_true rfl rfl)

theorem not_appendAsClaimed_earlier :
    ¬ AppendAsClaimed twoTerms (appendBehind 1 1 []) followerNode := by
  rintro ⟨q, log', P', htrace, _, _, _, _, hrest⟩
  rw [if_neg (by decide), if_pos (by decide)] at hrest
  have hrefused : (handlerAppendEntries (appendBehind 1 1 []) followerNode).trace =
      [.handed
        { msgType := .MsgAppendResponse
          to_ := 2
          index := 1
          reject := true
          rejectHint := 2 }] := by decide +kernel
  rw [hrefused] at htrace
  cases htrace
  have hreject := hrest.reply.1
  cases hreject

end Raft

end RsRaft
