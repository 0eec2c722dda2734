import RsRaft.Membership
import RsRaft.RaftControl

/-!
# Members joining a progress set

`Raft::new` and `Raft::restore` fill an empty progress set in two loops, one over
the voters and one over the learners. Whatever a round of such a loop does
besides, it inserts one member; the loop then leaves `joined` behind.

§1 one member · §2 a loop over new members · §3 the loop as a call.
-/

namespace RsRaft

open Call

/-! ## §1  One member -/

namespace ProgressSet

variable {prs : ProgressSet} {id : ℕ} {pr : Progress} {isLearner : Bool}

theorem get_installed_self : (prs.installed isLearner id pr).get id = some pr :=
  AList.lookup_insert _

theorem get_installed_ne {id' : ℕ} (hid : id' ≠ id) :
    (prs.installed isLearner id pr).get id' = prs.get id' :=
  AList.lookup_insert_ne hid

/-! ## §2  A loop over new members -/

variable {progressOf : ℕ → Progress} {ns : List ℕ}

/-- The set after a loop over new members. -/
def joined (prs : ProgressSet) (isLearner : Bool) (progressOf : ℕ → Progress) (ns : List ℕ) :
    ProgressSet :=
  ns.foldl (fun prs n => prs.installed isLearner n (progressOf n)) prs

/-- The members of the list are new, and each is listed once. -/
structure NewMembers (prs : ProgressSet) (ns : List ℕ) : Prop where
  nodup : ns.Nodup
  new : ∀ n ∈ ns, n ∉ prs.progress

/-- Behind its first member, the rest of the list is still new. -/
theorem newMembers_cons {n : ℕ} :
    prs.NewMembers (n :: ns) ↔
      n ∉ prs.progress ∧ (prs.installed isLearner n pr).NewMembers ns := by
  constructor
  · rintro ⟨hnodup, hnew⟩
    obtain ⟨hn, hnodup⟩ := List.nodup_cons.mp hnodup
    obtain ⟨hfirst, hnew⟩ := List.forall_mem_cons.mp hnew
    refine ⟨hfirst, hnodup, fun m hm hmem => ?_⟩
    rcases mem_progress_installed.mp hmem with rfl | hold
    · exact hn hm
    · exact hnew m hm hold
  · rintro ⟨hfirst, hnodup, hnew⟩
    refine ⟨List.nodup_cons.mpr ⟨fun hmem => ?_, hnodup⟩, List.forall_mem_cons.mpr ⟨hfirst, ?_⟩⟩
    · exact hnew n hmem (mem_progress_installed.mpr (Or.inl rfl))
    · exact fun m hm hold => hnew m hm (mem_progress_installed.mpr (Or.inr hold))

theorem joined_append {ms : List ℕ} :
    prs.joined isLearner progressOf (ns ++ ms) =
      (prs.joined isLearner progressOf ns).joined isLearner progressOf ms := List.foldl_append

theorem newMembers_append {ms : List ℕ} :
    prs.NewMembers (ns ++ ms) ↔
      prs.NewMembers ns ∧ (prs.joined isLearner progressOf ns).NewMembers ms := by
  induction ns generalizing prs with
  | nil =>
      exact (and_iff_right
        ⟨List.nodup_nil, fun _ hn => absurd hn List.not_mem_nil⟩).symm
  | cons n ns ih =>
      rw [List.cons_append, newMembers_cons, newMembers_cons, ih, and_assoc]
      rfl

theorem newMembers_withCapacity (voters learners : ℕ) :
    (withCapacity voters learners).NewMembers ns ↔ ns.Nodup :=
  ⟨fun h => h.nodup, fun h => ⟨h, fun _ _ hn => by cases hn⟩⟩

theorem WellFormed.joined (h : prs.WellFormed) (hnew : prs.NewMembers ns) :
    (prs.joined isLearner progressOf ns).WellFormed := by
  induction ns generalizing prs with
  | nil => exact h
  | cons n ns ih =>
      obtain ⟨hn, hrest⟩ := newMembers_cons.mp hnew
      exact ih (h.installed hn isLearner (progressOf n)) hrest

theorem mem_progress_joined :
    id ∈ (prs.joined isLearner progressOf ns).progress ↔ id ∈ ns ∨ id ∈ prs.progress := by
  induction ns generalizing prs with
  | nil => simp [joined]
  | cons n ns ih =>
      rw [joined, List.foldl_cons, ← joined, ih, mem_progress_installed, List.mem_cons]
      tauto

theorem mem_voterIds_joined :
    id ∈ (prs.joined isLearner progressOf ns).voterIds ↔
      (isLearner = false ∧ id ∈ ns) ∨ id ∈ prs.voterIds := by
  induction ns generalizing prs with
  | nil => simp [joined]
  | cons n ns ih =>
      rw [joined, List.foldl_cons, ← joined, ih, mem_voterIds_installed, List.mem_cons]
      tauto

theorem mem_learnerIds_joined :
    id ∈ (prs.joined isLearner progressOf ns).learnerIds ↔
      (isLearner = true ∧ id ∈ ns) ∨ id ∈ prs.learnerIds := by
  induction ns generalizing prs with
  | nil => simp [joined]
  | cons n ns ih =>
      rw [joined, List.foldl_cons, ← joined, ih, mem_learnerIds_installed, List.mem_cons]
      tauto

/-- A progress is a new member's, or was there before. -/
theorem get_joined (hget : (prs.joined isLearner progressOf ns).get id = some pr) :
    (id ∈ ns ∧ pr = progressOf id) ∨ prs.get id = some pr := by
  induction ns generalizing prs with
  | nil => exact Or.inr hget
  | cons n ns ih =>
      rcases ih hget with ⟨hmem, heq⟩ | hold
      · exact Or.inl ⟨List.mem_cons_of_mem n hmem, heq⟩
      · by_cases hid : id = n
        · subst hid
          rw [get_installed_self] at hold
          exact Or.inl ⟨List.mem_cons_self, (Option.some.inj hold).symm⟩
        · rw [get_installed_ne hid] at hold
          exact Or.inr hold

theorem wellFormed_withCapacity (voters learners : ℕ) :
    (withCapacity voters learners).WellFormed :=
  ⟨fun id => by simp [withCapacity, voterIds, learnerIds], fun id hid => by cases hid⟩

end ProgressSet

/-! ## §3  The loop as a call -/

namespace Raft

variable {T : Type} {r : Raft T} {prs : ProgressSet} {ns : List ℕ} {b isLearner : Bool}
  {progressOf : ℕ → Progress} {body : ℕ → Call Panic Event (Raft T) Unit}
  {mark : Bool → ℕ → Bool}

/-- The node between two rounds of a loop. -/
def withMembers (r : Raft T) (isLearner : Bool) (prs : ProgressSet) : Raft T :=
  { r with isLearner := isLearner, prs := some prs }

@[simp] theorem withMembers_id : (r.withMembers b prs).id = r.id := rfl

theorem withMembers_isLearner (r : Raft T) (prs : ProgressSet) :
    { r with prs := some prs } = r.withMembers r.isLearner prs := rfl

/-- A round inserts its member, and marks whether the node is a learner. -/
def Joins (r : Raft T) (isLearner : Bool) (progressOf : ℕ → Progress) (mark : Bool → ℕ → Bool)
    (body : ℕ → Call Panic Event (Raft T) Unit) : Prop :=
  ∀ b prs n, prs.WellFormed → n ∉ prs.progress →
    body n (r.withMembers b prs) =
      ⟨.ok (), r.withMembers (mark b n) (prs.installed isLearner n (progressOf n)), []⟩

theorem Joins.forM (hbody : Joins r isLearner progressOf mark body) (h : prs.WellFormed)
    (hnew : prs.NewMembers ns) :
    ns.forM body (r.withMembers b prs) =
      ⟨.ok (), r.withMembers (ns.foldl mark b) (prs.joined isLearner progressOf ns), []⟩ := by
  induction ns generalizing b prs with
  | nil => rfl
  | cons n ns ih =>
      obtain ⟨hn, hrest⟩ := ProgressSet.newMembers_cons.mp hnew
      show (body n >>= fun _ => ns.forM body) (r.withMembers b prs) = _
      rw [bind_ok (hbody b prs n h hn), Outcome.after_nil, ih (h.installed hn _ _) hrest]
      rfl

/-- Where a member is there already, or listed twice, a loop whose rounds stop there stops. -/
theorem Joins.stops {p : Panic → Prop} (hbody : Joins r isLearner progressOf mark body)
    (hstop : ∀ b prs n, prs.WellFormed → n ∈ prs.progress →
      ∃ e r', body n (r.withMembers b prs) = ⟨.error e, r', []⟩ ∧ p e)
    (h : prs.WellFormed) (hold : ¬ prs.NewMembers ns) :
    ∃ e r', ns.forM body (r.withMembers b prs) = ⟨.error e, r', []⟩ ∧ p e := by
  induction ns generalizing b prs with
  | nil => exact absurd ⟨List.nodup_nil, fun _ hn => absurd hn List.not_mem_nil⟩ hold
  | cons n ns ih =>
      by_cases hn : n ∈ prs.progress
      · obtain ⟨e, r', hrun, he⟩ := hstop b prs n h hn
        exact ⟨e, r', bind_error hrun, he⟩
      · have hrest : ¬ (prs.installed isLearner n (progressOf n)).NewMembers ns :=
          fun hyes => hold (ProgressSet.newMembers_cons.mpr ⟨hn, hyes⟩)
        obtain ⟨e, r', hrun, he⟩ := ih (b := mark b n) (h.installed hn _ _) hrest
        refine ⟨e, r', ?_, he⟩
        show (body n >>= fun _ => ns.forM body) (r.withMembers b prs) = _
        rw [bind_ok (hbody b prs n h hn), Outcome.after_nil, hrun]

/-- Only the node's own id marks it. -/
theorem foldl_mark (ns : List ℕ) (id : ℕ) (m b : Bool) :
    ns.foldl (fun b n => if n = id then m else b) b = if id ∈ ns then m else b := by
  induction ns generalizing b with
  | nil => rfl
  | cons n ns ih =>
      rw [List.foldl_cons, ih]
      by_cases hmem : id ∈ ns
      · rw [if_pos hmem, if_pos (List.mem_cons_of_mem n hmem)]
      · by_cases hid : n = id
        · rw [if_neg hmem, if_pos hid, if_pos (hid ▸ List.mem_cons_self)]
        · have hout : id ∉ n :: ns := by simp [hmem, Ne.symm hid]
          rw [if_neg hmem, if_neg hid, if_neg hout]

end Raft

end RsRaft
