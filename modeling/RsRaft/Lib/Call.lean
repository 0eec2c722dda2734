import Mathlib.Logic.Basic
import Mathlib.Data.List.Basic

/-!
# Calls that mutate a state, may panic, and leave a trace

A method of an imperative program changes its receiver, may stop half-way in a
panic, and does things an observer can list. `Call` keeps all three: the state
a panicking call leaves behind is *not* thrown away, and neither is the trace
up to the panic, so a property of every assignment can be stated of calls that
never return.

§1 the monad · §2 running a call step by step · §3 behaviours: the rules by
which a relation between two states is established along a call.
-/

/-- What one call leaves behind: its value (or the panic that stopped it), the
state at that moment, and the trace, oldest event first. -/
structure Outcome (π ε σ α : Type) where
  value : Except π α
  state : σ
  trace : List ε

/-- A call on a state `σ`, panicking with a `π`, tracing events `ε`. -/
def Call (π ε σ α : Type) : Type := σ → Outcome π ε σ α

namespace Outcome

variable {π ε σ α : Type}

/-- Put the events `es` in front of a trace. -/
def after (es : List ε) (r : Outcome π ε σ α) : Outcome π ε σ α :=
  { r with trace := es ++ r.trace }

@[simp] theorem after_trace (es : List ε) (r : Outcome π ε σ α) :
    (r.after es).trace = es ++ r.trace := rfl

@[simp] theorem after_mk (es es' : List ε) (v : Except π α) (s : σ) :
    (Outcome.mk v s es').after es = ⟨v, s, es ++ es'⟩ := rfl

@[simp] theorem after_nil (r : Outcome π ε σ α) : r.after [] = r := rfl

end Outcome

namespace Call

variable {π ε σ α β : Type}

/-! ## §1  The monad -/

/-- Sequencing: a panic skips the rest but keeps its state and trace. -/
protected def bind (x : Call π ε σ α) (f : α → Call π ε σ β) : Call π ε σ β :=
  fun s =>
    match x s with
    | ⟨.ok a, s', es⟩ => (f a s').after es
    | ⟨.error p, s', es⟩ => ⟨.error p, s', es⟩

instance : Monad (Call π ε σ) where
  pure a := fun s => ⟨.ok a, s, []⟩
  bind := Call.bind

/-- The receiver itself. -/
def read : Call π ε σ σ := fun s => ⟨.ok s, s, []⟩

/-- One assignment (or a block of them nobody can observe in between). -/
def modify (g : σ → σ) : Call π ε σ Unit := fun s => ⟨.ok (), g s, []⟩

def panic (p : π) : Call π ε σ α := fun s => ⟨.error p, s, []⟩

/-- Record one event. -/
def emit (e : ε) : Call π ε σ Unit := fun s => ⟨.ok (), s, [e]⟩

/-- A pure computation that may panic. -/
def lift (x : Except π α) : Call π ε σ α := fun s => ⟨x, s, []⟩

/-! ## §2  Running a call step by step -/

@[simp] theorem modify_run (g : σ → σ) (s : σ) :
    (modify g : Call π ε σ Unit) s = ⟨.ok (), g s, []⟩ := rfl

@[simp] theorem panic_run (p : π) (s : σ) :
    (panic p : Call π ε σ α) s = ⟨.error p, s, []⟩ := rfl

@[simp] theorem emit_run (e : ε) (s : σ) :
    (emit e : Call π ε σ Unit) s = ⟨.ok (), s, [e]⟩ := rfl

theorem bind_run (x : Call π ε σ α) (f : α → Call π ε σ β) (s : σ) :
    (x >>= f) s = match x s with
      | ⟨.ok a, s', es⟩ => (f a s').after es
      | ⟨.error p, s', es⟩ => ⟨.error p, s', es⟩ := rfl

/-- A first half that returns hands over to the second. -/
theorem bind_ok {x : Call π ε σ α} {f : α → Call π ε σ β} {s s' : σ} {a : α}
    {es : List ε} (h : x s = ⟨.ok a, s', es⟩) :
    (x >>= f) s = (f a s').after es := by
  rw [bind_run, h]

/-- A first half that panics is the whole call. -/
theorem bind_error {x : Call π ε σ α} {f : α → Call π ε σ β} {s s' : σ} {p : π}
    {es : List ε} (h : x s = ⟨.error p, s', es⟩) :
    (x >>= f) s = ⟨.error p, s', es⟩ := by
  rw [bind_run, h]

/-- The trace of the first half stays the beginning of the whole trace. -/
theorem bind_trace (x : Call π ε σ α) (f : α → Call π ε σ β) (s : σ) :
    ∃ es, ((x >>= f) s).trace = (x s).trace ++ es := by
  rw [bind_run]
  cases hx : x s with
  | mk v s' es =>
    cases v with
    | ok a => exact ⟨(f a s').trace, rfl⟩
    | error p => exact ⟨[], by simp⟩

/-- Replacing the value of a call changes nothing else of it. -/
theorem bind_pure_run (x : Call π ε σ α) (f : α → β) (s : σ) :
    (x >>= fun a => (pure (f a) : Call π ε σ β)) s =
      ⟨(x s).value.map f, (x s).state, (x s).trace⟩ := by
  rw [bind_run]
  cases hx : x s with
  | mk v s' es =>
    cases v with
    | ok a => simp [Outcome.after, Except.map, pure]
    | error p => rfl

@[simp] theorem pure_bind_run (a : α) (f : α → Call π ε σ β) (s : σ) :
    ((pure a : Call π ε σ α) >>= f) s = f a s := rfl

@[simp] theorem read_bind_run (f : σ → Call π ε σ β) (s : σ) :
    ((read : Call π ε σ σ) >>= f) s = f s s := rfl

@[simp] theorem modify_bind_run (g : σ → σ) (f : Unit → Call π ε σ β) (s : σ) :
    ((modify g : Call π ε σ Unit) >>= f) s = f () (g s) := rfl

@[simp] theorem panic_bind_run (p : π) (f : α → Call π ε σ β) (s : σ) :
    ((panic p : Call π ε σ α) >>= f) s = ⟨.error p, s, []⟩ := rfl

@[simp] theorem emit_bind_run (e : ε) (f : Unit → Call π ε σ β) (s : σ) :
    ((emit e : Call π ε σ Unit) >>= f) s = (f () s).after [e] := rfl

@[simp] theorem lift_ok_bind_run (a : α) (f : α → Call π ε σ β) (s : σ) :
    ((lift (.ok a) : Call π ε σ α) >>= f) s = f a s := rfl

@[simp] theorem lift_error_bind_run (p : π) (f : α → Call π ε σ β) (s : σ) :
    ((lift (.error p) : Call π ε σ α) >>= f) s = ⟨.error p, s, []⟩ := rfl

@[simp] theorem ite_run (c : Prop) [Decidable c] (x y : Call π ε σ α) (s : σ) :
    (if c then x else y) s = if c then x s else y s := by
  split <;> rfl

@[simp] theorem bind_assoc_run (x : Call π ε σ α) (f : α → Call π ε σ β)
    {γ : Type} (g : β → Call π ε σ γ) (s : σ) :
    ((x >>= f) >>= g) s = (x >>= fun a => f a >>= g) s := by
  simp only [bind_run]
  cases hx : x s with
  | mk v s' es =>
    cases v with
    | error p => rfl
    | ok a =>
      cases hf : f a s' with
      | mk w s'' es' =>
        cases w with
        | error p => simp [Outcome.after, hf]
        | ok b => simp [Outcome.after, hf]

/-! ## §3  Behaviours

A behaviour says what may happen between two states while a call runs on
(`runs`) and what may have happened when it panics (`stops`). Both compose
along sequencing, so a property of a method is the composition of the
properties of its statements. -/

/-- A relation along calls, closed under sequencing. -/
structure Behaviour (ε σ : Type) where
  runs : σ → List ε → σ → Prop
  stops : σ → List ε → σ → Prop
  refl : ∀ s, runs s [] s
  stops_refl : ∀ s, stops s [] s
  trans : ∀ {s s' s'' es es'}, runs s es s' → runs s' es' s'' → runs s (es ++ es') s''
  stops_after : ∀ {s s' s'' es es'}, runs s es s' → stops s' es' s'' →
    stops s (es ++ es') s''

/-- Of a call only counts how it ends. -/
def ending : Behaviour ε σ where
  runs _ _ _ := True
  stops _ _ _ := True
  refl _ := trivial
  stops_refl _ := trivial
  trans _ _ := trivial
  stops_after _ _ := trivial

/-- From `s`, the call `x` stays within `B`, and returns only with `Q`. -/
def Does (B : Behaviour ε σ) (s : σ) (x : Call π ε σ α) (Q : α → σ → Prop) : Prop :=
  match x s with
  | ⟨.ok a, s', es⟩ => B.runs s es s' ∧ Q a s'
  | ⟨.error _, s', es⟩ => B.stops s es s'

variable {B : Behaviour ε σ} {s : σ} {x : Call π ε σ α} {f : α → Call π ε σ β}
  {P Q : α → σ → Prop} {R : β → σ → Prop}

theorem Does.of_ok {a : α} {t : σ} {l : List ε} (hx : x s = ⟨.ok a, t, l⟩)
    (hB : B.runs s l t) (hQ : Q a t) : Does B s x Q := by
  unfold Does
  rw [hx]
  exact ⟨hB, hQ⟩

theorem Does.of_error {p : π} {t : σ} {l : List ε} (hx : x s = ⟨.error p, t, l⟩)
    (hB : B.stops s l t) : Does B s x Q := by
  unfold Does
  rw [hx]
  exact hB

/-- What a call that returned did. -/
theorem Does.ok {a : α} {s' : σ} {es : List ε} (h : Does B s x Q)
    (hx : x s = ⟨.ok a, s', es⟩) : B.runs s es s' ∧ Q a s' := by
  unfold Does at h
  rwa [hx] at h

/-- What a call that panicked had done. -/
theorem Does.error {p : π} {s' : σ} {es : List ε} (h : Does B s x Q)
    (hx : x s = ⟨.error p, s', es⟩) : B.stops s es s' := by
  unfold Does at h
  rwa [hx] at h

/-- What holds of a call however it ends. -/
theorem Does.elim {R : List ε → σ → Prop} (h : Does B s x Q)
    (hr : ∀ es s', B.runs s es s' → R es s') (hs : ∀ es s', B.stops s es s' → R es s') :
    R (x s).trace (x s).state := by
  unfold Does at h
  cases hx : x s with
  | mk v s' es =>
    rw [hx] at h
    cases v with
    | ok a => exact hr es s' h.1
    | error p => exact hs es s' h

/-- The same, with more to say of a call that returned. -/
theorem Does.outcome {R S : List ε → σ → Prop} (h : Does B s x Q)
    (hr : ∀ es s', B.runs s es s' → R es s' ∧ S es s') (hs : ∀ es s', B.stops s es s' → R es s') :
    R (x s).trace (x s).state ∧ ∀ a, (x s).value = .ok a → S (x s).trace (x s).state := by
  unfold Does at h
  cases hx : x s with
  | mk v s' es =>
    rw [hx] at h
    cases v with
    | ok a => exact ⟨(hr es s' h.1).1, fun _ _ => (hr es s' h.1).2⟩
    | error p => exact ⟨hs es s' h, fun _ hv => by cases hv⟩

theorem Does.weaken (h : Does B s x P) (hPQ : ∀ a s', P a s' → Q a s') :
    Does B s x Q := by
  unfold Does at h ⊢
  cases hx : x s with
  | mk v s' es =>
    rw [hx] at h
    cases v with
    | ok a => exact ⟨h.1, hPQ a s' h.2⟩
    | error p => exact h

/-- Only the run matters, not how the call is written. -/
theorem Does.of_run_eq {y : Call π ε σ α} (h : x s = y s) (hy : Does B s y Q) :
    Does B s x Q := by
  unfold Does at hy ⊢
  rwa [h]

/-- A behaviour that allows more. -/
theorem Does.mono {B' : Behaviour ε σ} (h : Does B s x Q)
    (hr : ∀ es s', B.runs s es s' → B'.runs s es s')
    (hs : ∀ es s', B.stops s es s' → B'.stops s es s') : Does B' s x Q := by
  unfold Does at h ⊢
  cases hx : x s with
  | mk v s' es =>
    rw [hx] at h
    cases v with
    | ok a => exact ⟨hr es s' h.1, h.2⟩
    | error p => exact hs es s' h

/-- The sequencing rule. -/
theorem Does.bind (hx : Does B s x Q) (hf : ∀ a s', Q a s' → Does B s' (f a) R) :
    Does B s (x >>= f) R := by
  unfold Does at hx
  cases hxs : x s with
  | mk v s' es =>
    rw [hxs] at hx
    cases v with
    | error p => exact Does.of_error (bind_error hxs) hx
    | ok a =>
      have hfa := hf a s' hx.2
      cases hfs : f a s' with
      | mk w s'' es' =>
        have hrun : (x >>= f) s = ⟨w, s'', es ++ es'⟩ := by
          rw [bind_ok hxs, hfs]; rfl
        cases w with
        | error p => exact Does.of_error hrun (B.stops_after hx.1 (hfa.error hfs))
        | ok b =>
          obtain ⟨hB, hR⟩ := hfa.ok hfs
          exact Does.of_ok hrun (B.trans hx.1 hB) hR

theorem Does.pure {a : α} (h : Q a s) : Does B s (pure a : Call π ε σ α) Q :=
  Does.of_ok rfl (B.refl s) h

theorem Does.panic (p : π) : Does B s (panic p : Call π ε σ α) Q :=
  Does.of_error rfl (B.stops_refl s)

theorem Does.read_bind {f : σ → Call π ε σ β} (h : Does B s (f s) R) :
    Does B s (read >>= f) R := Does.of_run_eq (read_bind_run f s) h

theorem Does.modify_bind {g : σ → σ} {f : Unit → Call π ε σ β} (hg : B.runs s [] (g s))
    (h : Does B (g s) (f ()) R) : Does B s (modify g >>= f) R :=
  Does.bind (Q := fun _ s' => s' = g s) (Does.of_ok rfl hg rfl) (by rintro _ _ rfl; exact h)

/-- A pure computation either returns or stops the call where it is. -/
theorem Does.lift_bind {e : Except π α} (h : ∀ a, e = .ok a → Does B s (f a) R) :
    Does B s (lift e >>= f) R := by
  cases e with
  | error p => exact Does.of_error rfl (B.stops_refl s)
  | ok a => exact Does.of_run_eq rfl (h a rfl)

/-- A conditional does what the branch taken does. -/
theorem Does.ite {c : Prop} [Decidable c] {y : Call π ε σ α}
    (hx : c → Does B s x Q) (hy : ¬ c → Does B s y Q) :
    Does B s (if c then x else y) Q := by
  split
  · exact hx ‹_›
  · exact hy ‹_›

/-- A loop whose body keeps an invariant keeps it. -/
theorem Does.forM {ι : Type} {l : List ι} {body : ι → Call π ε σ PUnit} {I : σ → Prop}
    (hs : I s)
    (hbody : ∀ i ∈ l, ∀ t, I t → Does B t (body i) (fun _ t' => I t')) :
    Does B s (l.forM body) (fun _ s' => I s') := by
  induction l generalizing s with
  | nil => exact Does.pure hs
  | cons i l ih =>
    show Does B s (body i >>= fun _ => l.forM body) _
    refine Does.bind (hbody i List.mem_cons_self s hs) ?_
    intro _ s' hs'
    exact ih hs' fun j hj => hbody j (List.mem_cons_of_mem _ hj)

/-- A fold whose body keeps an invariant on accumulator and state keeps it. -/
theorem Does.foldlM {ι γ : Type} {l : List ι} {body : γ → ι → Call π ε σ γ}
    {I : γ → σ → Prop} {c : γ} (hs : I c s)
    (hbody : ∀ i ∈ l, ∀ d t, I d t → Does B t (body d i) I) :
    Does B s (l.foldlM body c) I := by
  induction l generalizing c s with
  | nil => exact Does.pure hs
  | cons i l ih =>
    rw [List.foldlM_cons]
    refine Does.bind (hbody i List.mem_cons_self c s hs) ?_
    intro d s' hd
    exact ih hd fun j hj => hbody j (List.mem_cons_of_mem _ hj)

/-- A fold stops if one of its elements does, and the others keep the invariant. -/
theorem Does.foldlM_stops {ι γ : Type} {l : List ι} {body : γ → ι → Call π ε σ γ}
    {I : γ → σ → Prop} {c : γ} (hs : I c s)
    (hbody : ∀ i ∈ l, ∀ d t, I d t → Does B t (body d i) I) {j : ι} (hj : j ∈ l)
    (hstop : ∀ d t, I d t → Does B t (body d j) (fun _ _ => False)) :
    Does B s (l.foldlM body c) (fun _ _ => False) := by
  induction l generalizing c s with
  | nil => cases hj
  | cons i l ih =>
    rw [List.foldlM_cons]
    rcases List.mem_cons.mp hj with rfl | hj
    · exact Does.bind (hstop c s hs) fun _ _ hno => hno.elim
    · refine Does.bind (hbody i List.mem_cons_self c s hs) fun d t hd => ?_
      exact ih hd (fun i hi => hbody i (List.mem_cons_of_mem _ hi)) hj

end Call
