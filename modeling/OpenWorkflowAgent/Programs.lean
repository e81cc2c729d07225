/-
# Programs with a mutable state and exceptions

A program over the states `σ` is an `EStateM ε σ α`: it returns a value or raises an
exception, and either way the state it has reached stays, as the objects of a Python
program do when an exception passes.

`Leads x R` says where the runs of a program go, whatever they end with: from any
state to an `R`-related one.  For a relation that is reflexive and transitive the
rules below follow the syntax of a program, so a fact about every run of an
interpreter is proved with one lemma per function.
-/
import Mathlib

namespace Program

variable {ε σ α β : Type}

/-- The state in which a run ends. -/
def final (x : EStateM ε σ α) (s : σ) : σ :=
  match x s with
  | .ok _ s' => s'
  | .error _ s' => s'

variable {x : EStateM ε σ α}

theorem final_of_ok {s s' : σ} {a : α} (h : x s = .ok a s') :
    final x s = s' := by
  unfold final
  rw [h]

theorem final_of_error {s s' : σ} {e : ε} (h : x s = .error e s') :
    final x s = s' := by
  unfold final
  rw [h]

/-- Run a program and answer its outcome; nothing is raised. -/
def outcome (x : EStateM ε σ α) : EStateM ε σ (Except ε α) := fun s =>
  match x s with
  | .ok a s' => .ok (.ok a) s'
  | .error e s' => .ok (.error e) s'

/-- Raise or return an outcome. -/
def ofOutcome (r : Except ε α) : EStateM ε σ α := fun s =>
  match r with
  | .ok a => .ok a s
  | .error e => .error e s

/-- `try … finally`: run `x`, then change the state, whatever `x` ended with. -/
def ensuring (x : EStateM ε σ α) (f : σ → σ) : EStateM ε σ α := fun s =>
  match x s with
  | .ok a s' => .ok a (f s')
  | .error e s' => .error e (f s')

/-- Run a program under a condition. -/
def when (b : Bool) (x : EStateM ε σ Unit) : EStateM ε σ Unit := if b then x else pure ()

@[simp] theorem final_ofOutcome (r : Except ε α) (s : σ) :
    final (ofOutcome r : EStateM ε σ α) s = s := by
  cases r <;> rfl

@[simp] theorem final_outcome (x : EStateM ε σ α) (s : σ) : final (outcome x) s = final x s := by
  unfold final outcome
  cases x s <;> rfl

@[simp] theorem final_ensuring (x : EStateM ε σ α) (f : σ → σ) (s : σ) :
    final (ensuring x f) s = f (final x s) := by
  unfold final ensuring
  cases x s <;> rfl

/-- What a run ends with. -/
def result (x : EStateM ε σ α) (s : σ) : Except ε α :=
  match x s with
  | .ok a _ => .ok a
  | .error e _ => .error e

/-- A sequence stops with its first part, or goes on from there. -/
theorem final_bind (x : EStateM ε σ α) (f : α → EStateM ε σ β) (s : σ) :
    (∃ a, result x s = .ok a ∧ final (x >>= f) s = final (f a) (final x s)) ∨
      (∃ e, result x s = .error e ∧ final (x >>= f) s = final x s) := by
  cases h : x s with
  | ok a s' =>
    refine Or.inl ⟨a, by unfold result; rw [h], ?_⟩
    rw [final_of_ok h]
    show final (EStateM.bind x f) s = _
    unfold final EStateM.bind
    rw [h]
  | error e s' =>
    refine Or.inr ⟨e, by unfold result; rw [h], ?_⟩
    rw [final_of_error h]
    show final (EStateM.bind x f) s = _
    unfold final EStateM.bind
    rw [h]

theorem final_ofOutcome_bind (r : Except ε α) (f : α → EStateM ε σ β) (s : σ) :
    (∃ a, r = .ok a ∧ final (ofOutcome r >>= f) s = final (f a) s) ∨
      final (ofOutcome r >>= f) s = s := by
  cases r with
  | ok a => exact Or.inl ⟨a, rfl, rfl⟩
  | error e => exact Or.inr rfl

variable {f : α → EStateM ε σ β}

/-- What follows `outcome` runs from where the program ended. -/
theorem final_outcome_bind (x : EStateM ε σ α) (f : Except ε α → EStateM ε σ β) (s : σ) :
    final (outcome x >>= f) s = final (f (result x s)) (final x s) := by
  have hok : outcome x s = .ok (result x s) (final x s) := by
    unfold outcome result final
    cases x s <;> rfl
  show final (EStateM.bind (outcome x) f) s = _
  rw [final, EStateM.bind, hok]
  rfl

/-! ## Where runs lead -/

/-- Every run of `x` leads to an `R`-related state. -/
def Leads (x : EStateM ε σ α) (R : σ → σ → Prop) : Prop := ∀ s, R s (final x s)

variable {R : σ → σ → Prop}

theorem Leads.pure (hrefl : ∀ s, R s s) (a : α) : Leads (Pure.pure a : EStateM ε σ α) R :=
  fun s => hrefl s

theorem Leads.throw (hrefl : ∀ s, R s s) (e : ε) :
    Leads (MonadExcept.throw e : EStateM ε σ α) R :=
  fun s => hrefl s

theorem Leads.ofOutcome (hrefl : ∀ s, R s s) (r : Except ε α) :
    Leads (Program.ofOutcome r : EStateM ε σ α) R := by
  intro s
  rw [final_ofOutcome]
  exact hrefl s

theorem Leads.outcome (h : Leads x R) : Leads (Program.outcome x) R := by
  intro s
  rw [final_outcome]
  exact h s

/-- The rule of sequences: `S` has to hold after both parts, and where the first part stops. -/
theorem Leads.seq {S T : σ → σ → Prop} (htrans : ∀ a b c, R a b → S b c → T a c)
    (hstop : ∀ a b, R a b → T a b) (hx : Leads x R) (hf : ∀ a, Leads (f a) S) :
    Leads (x >>= f) T := by
  intro s
  obtain ⟨a, -, hfinal⟩ | ⟨e, -, hfinal⟩ := final_bind x f s
  · rw [hfinal]
    exact htrans _ _ _ (hx s) (hf a _)
  · rw [hfinal]
    exact hstop _ _ (hx s)

theorem Leads.bind (htrans : ∀ a b c, R a b → R b c → R a c) (hx : Leads x R)
    (hf : ∀ a, Leads (f a) R) : Leads (x >>= f) R :=
  Leads.seq htrans (fun _ _ h => h) hx hf

theorem Leads.ite {c : Prop} [Decidable c] {y : EStateM ε σ α} (hx : Leads x R) (hy : Leads y R) :
    Leads (if c then x else y) R := by
  split
  · exact hx
  · exact hy

theorem Leads.when (hrefl : ∀ s, R s s) {b : Bool} {x : EStateM ε σ Unit} (h : Leads x R) :
    Leads (Program.when b x) R := by
  unfold Program.when
  split
  · exact h
  · exact Leads.pure hrefl ()

end Program
