import RsRaft.Lib.EveryCall
import RsRaft.Progress

/-!
# The members of a progress set

A progress set keeps voters, learners and the progress of both in three
collections. Inserting and removing keeps them in step, and a refused call
changes nothing. Promoting a learner does neither: it takes the id out of the
learners, looks for it among the voters, and fails half-way.

§1 the calls · §2 one call · §3 the run.
-/

namespace RsRaft

/-! ## §1  The calls -/

inductive MemberCall where
  | insertVoter (id : ℕ) (progress : Progress)
  | insertLearner (id : ℕ) (progress : Progress)
  | remove (id : ℕ)
  | promoteLearner (id : ℕ)

namespace MemberCall

def run (prs : ProgressSet) : MemberCall → Except Panic (Result Unit × ProgressSet)
  | insertVoter id progress => prs.insertVoter id progress
  | insertLearner id progress => prs.insertLearner id progress
  | remove id => do
      let (_, prs') ← prs.remove id
      pure (.ok (), prs')
  | promoteLearner id => prs.promoteLearner id

/-- When the call succeeds, and what it does then. -/
def Answers (prs : ProgressSet) (r : Result Unit) (prs' : ProgressSet) : MemberCall → Prop
  | insertVoter id progress =>
      (r = .ok () ↔ id ∉ prs.progress) ∧
        (r = .ok () → id ∈ prs'.voterIds ∧ prs'.get id = some progress)
  | insertLearner id progress =>
      (r = .ok () ↔ id ∉ prs.progress) ∧
        (r = .ok () → id ∈ prs'.learnerIds ∧ prs'.get id = some progress)
  | remove id => r = .ok () ∧ id ∉ prs'.progress
  | promoteLearner id =>
      (r = .ok () ↔ id ∈ prs.learnerIds) ∧
        (r = .ok () → id ∈ prs'.voterIds ∧ id ∉ prs'.learnerIds ∧ prs'.get id = prs.get id)

/-- The call returns, leaves the three collections in step, answers as it should, and
changes nothing if it fails. -/
def AsClaimed (prs : ProgressSet) (c : MemberCall) : Prop :=
  ∃ r prs', c.run prs = .ok (r, prs') ∧ prs'.WellFormed ∧
    prs'.assertProgressAndConfigurationConsistent = .ok () ∧
    (r ≠ .ok () → prs' = prs) ∧ c.Answers prs r prs'

/-- The call promotes someone who is a learner. -/
def Promotes (prs : ProgressSet) : MemberCall → Prop
  | promoteLearner id => id ∈ prs.learnerIds
  | _ => False

end MemberCall

/-- Every call of the sequence meets `P` in the set before it. -/
def EveryMemberCall (P : ProgressSet → MemberCall → Prop) :
    List MemberCall → ProgressSet → Prop :=
  EveryCall (fun prs c prs' => ∃ r, c.run prs = .ok (r, prs')) P

/-! ## §2  One call -/

namespace ProgressSet

variable {prs : ProgressSet} {id : ℕ} {progress : Progress}

/-- Collections in step pass the check. -/
theorem WellFormed.consistent (h : prs.WellFormed) :
    prs.assertProgressAndConfigurationConsistent = .ok () := by
  have hunion : prs.progress.keys.toFinset =
      prs.voterIds.keys.toFinset ∪ prs.learnerIds.keys.toFinset := by
    ext id
    simp only [Finset.mem_union, List.mem_toFinset, ← AList.mem_keys]
    exact h.members id
  have hdisj : Disjoint prs.voterIds.keys.toFinset prs.learnerIds.keys.toFinset := by
    rw [Finset.disjoint_left]
    intro id hv hl
    rw [List.mem_toFinset, ← AList.mem_keys] at hv hl
    exact h.disjoint id hv hl
  have hcard := Finset.card_union_of_disjoint hdisj
  rw [← hunion, AList.card_keys, AList.card_keys, AList.card_keys] at hcard
  exact if_pos hcard.symm

/-- The set with a new member. -/
def installed (prs : ProgressSet) (isLearner : Bool) (id : ℕ) (pr : Progress) : ProgressSet where
  progress := prs.progress.insert id pr
  configuration :=
    if isLearner then
      { prs.configuration with learners := prs.configuration.learners.orInsert id () }
    else { prs.configuration with voters := prs.configuration.voters.orInsert id () }

theorem mem_progress_installed {pr : Progress} {isLearner : Bool} {id' : ℕ} :
    id' ∈ (prs.installed isLearner id pr).progress ↔ id' = id ∨ id' ∈ prs.progress :=
  AList.mem_insert _

theorem mem_voterIds_installed {pr : Progress} {isLearner : Bool} {id' : ℕ} :
    id' ∈ (prs.installed isLearner id pr).voterIds ↔
      (isLearner = false ∧ id' = id) ∨ id' ∈ prs.voterIds := by
  cases isLearner with
  | false => simpa [voterIds, installed] using AList.mem_orInsert
  | true => simp [voterIds, installed]

theorem mem_learnerIds_installed {pr : Progress} {isLearner : Bool} {id' : ℕ} :
    id' ∈ (prs.installed isLearner id pr).learnerIds ↔
      (isLearner = true ∧ id' = id) ∨ id' ∈ prs.learnerIds := by
  cases isLearner with
  | false => simp [learnerIds, installed]
  | true => simpa [learnerIds, installed] using AList.mem_orInsert

theorem WellFormed.installed (h : prs.WellFormed) (hid : id ∉ prs.progress) (isLearner : Bool)
    (pr : Progress) : (prs.installed isLearner id pr).WellFormed where
  members id' := by
    rw [mem_progress_installed, mem_voterIds_installed, mem_learnerIds_installed, h.members id']
    cases isLearner <;> simp <;> tauto
  disjoint id' := by
    rw [mem_voterIds_installed, mem_learnerIds_installed]
    have hnew : id ∉ prs.voterIds ∧ id ∉ prs.learnerIds := by
      rwa [← not_or, ← h.members id]
    rintro (⟨rfl, rfl⟩ | hv) (⟨hl, hsame⟩ | hl)
    · cases hl
    · exact hnew.2 hl
    · exact hnew.1 (hsame ▸ hv)
    · exact h.disjoint id' hv hl

/-- Inserting a new id succeeds. -/
theorem WellFormed.insert_run (h : prs.WellFormed) (hid : id ∉ prs.progress) (isLearner : Bool)
    (pr : Progress) :
    (if isLearner then prs.insertLearner id pr else prs.insertVoter id pr) =
      .ok (.ok (), prs.installed isLearner id pr) := by
  have hcons := (h.installed hid isLearner pr).consistent
  cases isLearner with
  | false =>
      rw [if_neg Bool.false_ne_true, ProgressSet.insertVoter, if_neg hid]
      exact congrArg (· >>= fun _ => pure _) hcons
  | true =>
      rw [if_pos rfl, ProgressSet.insertLearner, if_neg hid]
      exact congrArg (· >>= fun _ => pure _) hcons

/-- Inserting an id that is there does not. -/
theorem insert_refused (hid : id ∈ prs.progress) (isLearner : Bool) (pr : Progress) :
    ∃ e, (if isLearner then prs.insertLearner id pr else prs.insertVoter id pr) =
      .ok (.error e, prs) := by
  cases isLearner with
  | false =>
      rw [if_neg Bool.false_ne_true, ProgressSet.insertVoter, if_pos hid]
      split <;> exact ⟨_, rfl⟩
  | true =>
      rw [if_pos rfl, ProgressSet.insertLearner, if_pos hid]
      split <;> exact ⟨_, rfl⟩

theorem WellFormed.remove (h : prs.WellFormed) (id : ℕ) :
    WellFormed
      { progress := prs.progress.erase id
        configuration :=
          { voters := prs.configuration.voters.erase id
            learners := prs.configuration.learners.erase id } } where
  members id' := by
    have := h.members id'
    simp only [voterIds, learnerIds] at this
    simp only [voterIds, learnerIds, AList.mem_erase, this]
    tauto
  disjoint id' hv := by
    simp only [voterIds, learnerIds, AList.mem_erase] at hv ⊢
    exact fun hl => h.disjoint id' hv.2 hl.2

end ProgressSet

namespace MemberCall

open ProgressSet

variable {prs : ProgressSet} {c : MemberCall} {id : ℕ} {progress : Progress}

/-- A refused call is fine if it should have been refused. -/
theorem asClaimed_of_refused (h : prs.WellFormed) {e : Error}
    (hrun : c.run prs = .ok (.error e, prs)) (hanswer : c.Answers prs (.error e) prs) :
    AsClaimed prs c :=
  ⟨_, _, hrun, h, h.consistent, fun _ => rfl, hanswer⟩

theorem asClaimed_of_done {prs' : ProgressSet} (h : prs'.WellFormed)
    (hrun : c.run prs = .ok (.ok (), prs')) (hanswer : c.Answers prs (.ok ()) prs') :
    AsClaimed prs c :=
  ⟨_, _, hrun, h, h.consistent, fun hne => absurd rfl hne, hanswer⟩

/-- An insertion, whether of a voter or of a learner. -/
theorem asClaimed_insert (h : prs.WellFormed) (isLearner : Bool)
    (hrun : c.run prs =
      if isLearner then prs.insertLearner id progress else prs.insertVoter id progress)
    (hanswer : ∀ r prs', c.Answers prs r prs' ↔ (r = .ok () ↔ id ∉ prs.progress) ∧
      (r = .ok () → (if isLearner then id ∈ prs'.learnerIds else id ∈ prs'.voterIds) ∧
        prs'.get id = some progress)) : AsClaimed prs c := by
  by_cases hid : id ∈ prs.progress
  · obtain ⟨e, he⟩ := insert_refused hid isLearner progress
    refine asClaimed_of_refused h (hrun.trans he) ((hanswer _ _).mpr ?_)
    exact ⟨iff_of_false (fun hok => by cases hok) (fun hno => hno hid), fun hok => by cases hok⟩
  · refine asClaimed_of_done (h.installed hid isLearner progress)
      (hrun.trans (h.insert_run hid isLearner progress)) ((hanswer _ _).mpr ?_)
    refine ⟨iff_of_true rfl hid, fun _ => ⟨?_, AList.lookup_insert _⟩⟩
    rw [mem_learnerIds_installed, mem_voterIds_installed]
    cases isLearner <;> simp

theorem asClaimed_remove (h : prs.WellFormed) (id : ℕ) : AsClaimed prs (.remove id) := by
  have hwf := h.remove id
  apply asClaimed_of_done hwf
  · simp only [run, ProgressSet.remove]
    rw [hwf.consistent]
    rfl
  · exact ⟨rfl, fun hmem => (AList.mem_erase.mp hmem).1 rfl⟩

/-- Promoting anyone but a learner is refused. -/
theorem asClaimed_promoteLearner (h : prs.WellFormed) (hid : id ∉ prs.learnerIds) :
    AsClaimed prs (.promoteLearner id) := by
  have hrun : (MemberCall.promoteLearner id).run prs =
      .ok (.error (.NotExists id "learners"), prs) := if_neg hid
  apply asClaimed_of_refused h hrun
  exact ⟨iff_of_false (fun hok => by cases hok) hid, fun hok => by cases hok⟩

/-- A learner to be promoted is no longer one when the call fails. -/
theorem promoteLearner_learner (h : prs.WellFormed) (hid : id ∈ prs.learnerIds) :
    (MemberCall.promoteLearner id).run prs = .ok (.error (.NotExists id "voters"),
      { prs with
        configuration :=
          { prs.configuration with
            learners := prs.configuration.learners.erase id } }) := by
  have hlearner : id ∈ prs.configuration.learners := hid
  have hvoter : id ∉ prs.configuration.voters := fun hv => h.disjoint id hv hid
  simp only [run, ProgressSet.promoteLearner]
  rw [if_pos hlearner, if_neg hvoter]
  rfl

theorem asClaimed_iff (h : prs.WellFormed) : AsClaimed prs c ↔ ¬ c.Promotes prs := by
  cases c with
  | insertVoter id progress =>
      exact iff_of_true (asClaimed_insert h false rfl fun _ _ => .rfl) not_false
  | insertLearner id progress =>
      exact iff_of_true (asClaimed_insert h true rfl fun _ _ => .rfl) not_false
  | remove id => exact iff_of_true (asClaimed_remove h id) not_false
  | promoteLearner id =>
      constructor
      · rintro ⟨r, prs', hrun, _, _, _, hanswer, _⟩ hid
        rw [promoteLearner_learner h hid] at hrun
        cases hrun
        have hok := hanswer.mpr hid
        cases hok
      · exact asClaimed_promoteLearner h

end MemberCall

/-! ## §3  The run -/

/-- From the empty set on, every call does what it should exactly if nobody promotes a
learner. -/
theorem ProgressSet.members_iff (cs : List MemberCall) :
    EveryMemberCall MemberCall.AsClaimed cs {} ↔
      EveryMemberCall (fun prs c => ¬ c.Promotes prs) cs {} := by
  have hempty : ProgressSet.WellFormed {} :=
    ⟨fun id => by simp [voterIds, learnerIds], fun id hid => by cases hid⟩
  refine EveryCall.iff_of_invariant (A := fun _ _ => True) ?_ ?_ hempty
    (EveryCall.of_forall (fun _ _ => trivial) cs _)
  · intro prs c h _
    exact MemberCall.asClaimed_iff h
  · rintro prs c prs' h _ hno ⟨r, hrun⟩
    obtain ⟨r', prs'', hrun', hwf, _⟩ := (MemberCall.asClaimed_iff h).mpr hno
    rw [hrun] at hrun'
    cases hrun'
    exact hwf

/-! The only learner is promoted: the call fails, and the next insertion would panic. -/

theorem ProgressSet.not_members_promoted :
    ¬ EveryMemberCall MemberCall.AsClaimed
      [.insertLearner 1 (Progress.new 1 256), .promoteLearner 1] {} := by
  rintro ⟨_, h⟩
  obtain ⟨h, _⟩ := h _ ⟨_, rfl⟩
  obtain ⟨r, prs', hrun, hwf, _⟩ := h
  cases hrun
  have hmem := (hwf.members 1).mp (by decide)
  revert hmem
  decide

end RsRaft
