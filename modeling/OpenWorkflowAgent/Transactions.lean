/-
# Storage transactions

A storage transaction reads and writes the tables of a store `σ` and either
commits, answering a value, or raises an error `ε`.  It is a state transformer
over `Except`: an error carries no store, so every write made before a `raise`
is discarded, exactly as the rollback of the database discards it.

The combinators `raiseIf`, `orRaise`, `read` and `write` are the four shapes the
bodies of transactions are made of.  Each has one inversion lemma for a
committed run; `bind_eq_ok` peels a body apart, so that no proof unfolds the
monad.
-/
import Mathlib

section Raising

universe v

variable {ε α : Type} {m : Type → Type v} [Monad m] [MonadExcept ε m]

/-- Raise `e` when `c` holds; otherwise go on. -/
def raiseIf (c : Prop) [Decidable c] (e : ε) : m Unit :=
  if c then throw e else pure ()

/-- The value of an optional result, raising `e` when there is none. -/
def orRaise (o : Option α) (e : ε) : m α :=
  match o with
  | some a => pure a
  | none => throw e

/-- Run a computation that only raises or answers inside another one. -/
def orRaiseError (x : Except ε α) : m α :=
  match x with
  | .ok a => pure a
  | .error e => throw e

end Raising

/-! ## Inversion of computations that only raise or answer -/

theorem exists_unit {p : Unit → Prop} : (∃ u, p u) ↔ p () :=
  ⟨fun ⟨_, h⟩ => h, fun h => ⟨(), h⟩⟩

section

variable {α : Type} {a : α} {q : α → Prop}

theorem exists_and_eq_and {p : Prop} : (∃ b, (p ∧ a = b) ∧ q b) ↔ p ∧ q a := by
  constructor
  · rintro ⟨_, ⟨hp, rfl⟩, hq⟩
    exact ⟨hp, hq⟩
  · rintro ⟨hp, hq⟩
    exact ⟨a, ⟨hp, rfl⟩, hq⟩

theorem exists_eq_and_and {p : α → Prop} : (∃ b, (a = b ∧ p b) ∧ q b) ↔ p a ∧ q a := by
  simp only [and_assoc, exists_eq_left']

end

section Except

variable {ε α β : Type}

theorem except_bind_eq_ok {x : Except ε α} {f : α → Except ε β} {b : β} :
    (x >>= f) = .ok b ↔ ∃ a, x = .ok a ∧ f a = .ok b := by
  cases x with
  | error => simp [bind, Except.bind]
  | ok => simp [bind, Except.bind]

theorem except_bind_eq_error {x : Except ε α} {f : α → Except ε β} {e : ε} :
    (x >>= f) = .error e ↔ x = .error e ∨ ∃ a, x = .ok a ∧ f a = .error e := by
  cases x with
  | error => simp [bind, Except.bind]
  | ok => simp [bind, Except.bind]

theorem except_raiseIf_eq_ok {c : Prop} [Decidable c] {e : ε} {u : Unit} :
    (raiseIf c e : Except ε Unit) = .ok u ↔ ¬ c := by
  unfold raiseIf
  by_cases hc : c
  · rw [if_pos hc]
    simp only [hc, not_true_eq_false, iff_false]
    exact fun h => by cases h
  · rw [if_neg hc]
    simp only [hc, not_false_eq_true, iff_true]
    rfl

theorem except_orRaise_eq_ok {o : Option α} {e : ε} {a : α} :
    (orRaise o e : Except ε α) = .ok a ↔ o = some a := by
  cases o with
  | none => exact ⟨fun h => (by cases h), fun h => (by cases h)⟩
  | some b =>
    show Except.ok b = Except.ok a ↔ _
    simp only [Except.ok.injEq, Option.some.injEq]

/-- These inversions together. -/
theorem except_eq_ok :
    (∀ {ε α β : Type} {x : Except ε α} {f : α → Except ε β} {b : β},
      (x >>= f) = .ok b ↔ ∃ a, x = .ok a ∧ f a = .ok b) ∧
    (∀ {ε : Type} {c : Prop} [Decidable c] {e : ε} {u : Unit},
      (raiseIf c e : Except ε Unit) = .ok u ↔ ¬ c) ∧
    (∀ {ε α : Type} {o : Option α} {e : ε} {a : α},
      (orRaise o e : Except ε α) = .ok a ↔ o = some a) ∧
    ∀ {p : Unit → Prop}, (∃ u, p u) ↔ p () :=
  ⟨except_bind_eq_ok, except_raiseIf_eq_ok, except_orRaise_eq_ok, exists_unit⟩

theorem option_any_eq_true {o : Option α} {p : α → Bool} :
    o.any p = true ↔ ∃ a, o = some a ∧ p a = true := by
  cases o <;> simp

end Except

/-- A transaction over the store `σ`: it commits with an answer or raises. -/
abbrev Transaction (ε σ α : Type) := StateT σ (Except ε) α

namespace Transaction

variable {ε σ α β : Type}

/-- A query: read a value off the tables. -/
def read (f : σ → α) : Transaction ε σ α := do
  return f (← get)

/-- A statement: change the tables. -/
def write (f : σ → σ) : Transaction ε σ Unit :=
  modify f

/-- A query that raises or answers. -/
def ask (f : σ → Except ε α) : Transaction ε σ α := do
  let answer ← read f
  orRaiseError answer

/-- Translate the error of a transaction (an `except` clause that raises again). -/
def mapError (f : ε → ε) (t : Transaction ε σ α) : Transaction ε σ α :=
  fun s => match t.run s with
    | .ok r => .ok r
    | .error e => .error (f e)

/-- Run a transaction of a part `τ` of the store. -/
def zoom {τ : Type} (view : σ → τ) (put : τ → σ → σ) (t : Transaction ε τ α) :
    Transaction ε σ α :=
  fun s => match t.run (view s) with
    | .ok (a, x) => .ok (a, put x s)
    | .error e => .error e

/-! ## Inversion of committed runs -/

variable {x : Transaction ε σ α} {f : σ → α}

/-- Sequencing commits exactly when both parts do. -/
theorem bind_eq_ok {f : α → Transaction ε σ β} {s : σ} {r : β × σ} :
    (x >>= f).run s = .ok r ↔ ∃ a s₁, x.run s = .ok (a, s₁) ∧ (f a).run s₁ = .ok r := by
  rw [StateT.run_bind]
  cases hx : x.run s with
  | error => simp [bind, Except.bind]
  | ok p =>
    obtain ⟨a, s₁⟩ := p
    simp [bind, Except.bind]

variable {s s' : σ} {a : α} {e : ε} {u : Unit}

theorem pure_eq_ok {a b : α} :
    (pure a : Transaction ε σ α).run s = .ok (b, s') ↔ a = b ∧ s = s' := by
  rw [StateT.run_pure]
  simp only [pure, Except.pure, Except.ok.injEq, Prod.mk.injEq]

theorem throw_eq_ok {s : σ} {r : α × σ} :
    (throw e : Transaction ε σ α).run s = .ok r ↔ False := by
  constructor
  · intro h
    cases h
  · exact False.elim

theorem raiseIf_eq_ok {c : Prop} [Decidable c] :
    (raiseIf c e : Transaction ε σ Unit).run s = .ok (u, s') ↔ ¬ c ∧ s = s' := by
  unfold raiseIf
  by_cases hc : c
  · rw [if_pos hc, throw_eq_ok]
    simp [hc]
  · rw [if_neg hc, pure_eq_ok]
    simp [hc]

theorem orRaise_eq_ok {o : Option α} :
    (orRaise o e : Transaction ε σ α).run s = .ok (a, s') ↔ o = some a ∧ s = s' := by
  unfold orRaise
  cases o with
  | none => rw [throw_eq_ok]; simp
  | some => rw [pure_eq_ok, Option.some.injEq]

theorem orRaiseError_eq_ok {x : Except ε α} :
    (orRaiseError x : Transaction ε σ α).run s = .ok (a, s') ↔ x = .ok a ∧ s = s' := by
  unfold orRaiseError
  cases x with
  | error => rw [throw_eq_ok]; simp
  | ok => rw [pure_eq_ok, Except.ok.injEq]

theorem read_eq_ok :
    (read f : Transaction ε σ α).run s = .ok (a, s') ↔ f s = a ∧ s = s' := by
  show (Except.ok (f s, s) : Except ε (α × σ)) = .ok (a, s') ↔ _
  simp only [Except.ok.injEq, Prod.mk.injEq]

theorem ask_eq_ok {f : σ → Except ε α} :
    (ask f).run s = .ok (a, s') ↔ f s = .ok a ∧ s = s' := by
  simp only [ask, bind_eq_ok, read_eq_ok, orRaiseError_eq_ok, exists_and_eq_and, exists_eq_left']

theorem write_eq_ok {f : σ → σ} :
    (write f : Transaction ε σ Unit).run s = .ok (u, s') ↔ f s = s' := by
  show (Except.ok ((), f s) : Except ε (Unit × σ)) = .ok (u, s') ↔ _
  simp only [Except.ok.injEq, Prod.mk.injEq, true_and]

variable {t : Transaction ε σ α}

/-- The inversions of the statements of a body, for `simp only` to peel it apart. -/
theorem run_eq_ok :
    (∀ {ε σ α β : Type} {x : Transaction ε σ α} {f : α → Transaction ε σ β} {s : σ} {r : β × σ},
      (x >>= f).run s = .ok r ↔ ∃ a s₁, x.run s = .ok (a, s₁) ∧ (f a).run s₁ = .ok r) ∧
    (∀ {ε σ α : Type} {a b : α} {s s' : σ},
      (pure a : Transaction ε σ α).run s = .ok (b, s') ↔ a = b ∧ s = s') ∧
    (∀ {ε σ : Type} {c : Prop} [Decidable c] {e : ε} {s s' : σ} {u : Unit},
      (raiseIf c e : Transaction ε σ Unit).run s = .ok (u, s') ↔ ¬ c ∧ s = s') ∧
    (∀ {ε σ α : Type} {o : Option α} {e : ε} {s s' : σ} {a : α},
      (orRaise o e : Transaction ε σ α).run s = .ok (a, s') ↔ o = some a ∧ s = s') ∧
    (∀ {ε σ α : Type} {x : Except ε α} {s s' : σ} {a : α},
      (orRaiseError x : Transaction ε σ α).run s = .ok (a, s') ↔ x = .ok a ∧ s = s') ∧
    (∀ {ε σ α : Type} {f : σ → α} {s s' : σ} {a : α},
      (read f : Transaction ε σ α).run s = .ok (a, s') ↔ f s = a ∧ s = s') ∧
    (∀ {ε σ α : Type} {f : σ → Except ε α} {s s' : σ} {a : α},
      (ask f).run s = .ok (a, s') ↔ f s = .ok a ∧ s = s') ∧
    (∀ {ε σ : Type} {f : σ → σ} {s s' : σ} {u : Unit},
      (write f : Transaction ε σ Unit).run s = .ok (u, s') ↔ f s = s') ∧
    (∀ {α : Type} {a : α} {p : Prop} {q : α → Prop},
      (∃ b, (p ∧ a = b) ∧ q b) ↔ p ∧ q a) ∧
    (∀ {α : Type} {a : α} {p q : α → Prop}, (∃ b, (a = b ∧ p b) ∧ q b) ↔ p a ∧ q a) ∧
    (∀ {α β : Type} {f : α → β} {p : α → Prop} {q : β → Prop},
      (∃ b, (∃ a, p a ∧ f a = b) ∧ q b) ↔ ∃ a, p a ∧ q (f a)) ∧
    (∀ {α : Type} {a : α} {q : α → Prop}, (∃ b, a = b ∧ q b) ↔ q a) ∧
    ∀ {p : Unit → Prop}, (∃ u, p u) ↔ p () :=
  ⟨bind_eq_ok, pure_eq_ok, raiseIf_eq_ok, orRaise_eq_ok, orRaiseError_eq_ok, read_eq_ok, ask_eq_ok,
    write_eq_ok, exists_and_eq_and, exists_eq_and_and, exists_exists_and_eq_and, exists_eq_left',
    exists_unit⟩

theorem mapError_eq_ok {f : ε → ε} {s : σ} {r : α × σ} :
    (t.mapError f).run s = .ok r ↔ t.run s = .ok r := by
  show (match t.run s with
    | .ok r => .ok r
    | .error e => .error (f e)) = Except.ok r ↔ _
  cases t.run s with
  | error => simp
  | ok => simp

theorem zoom_eq_ok {τ : Type} {view : σ → τ} {put : τ → σ → σ} {t : Transaction ε τ α}
    :
    (t.zoom view put).run s = .ok (a, s') ↔
      ∃ x, t.run (view s) = .ok (a, x) ∧ put x s = s' := by
  show (match t.run (view s) with
    | .ok (a, x) => .ok (a, put x s)
    | .error e => .error e) = Except.ok (a, s') ↔ _
  cases t.run (view s) with
  | error => simp
  | ok r =>
    obtain ⟨b, x⟩ := r
    simp only [Except.ok.injEq, Prod.mk.injEq]
    constructor
    · rintro ⟨rfl, rfl⟩
      exact ⟨x, ⟨rfl, rfl⟩, rfl⟩
    · rintro ⟨x', ⟨rfl, rfl⟩, rfl⟩
      exact ⟨rfl, rfl⟩

/-! ## What a transaction leaves behind -/

/-- The store after the transaction: its writes when it commits, the store
before it when it raises. -/
def after (t : Transaction ε σ α) (s : σ) : σ :=
  match t.run s with
  | .ok (_, s') => s'
  | .error _ => s

/-- What the caller sees of the transaction. -/
def answer (t : Transaction ε σ α) (s : σ) : Except ε α :=
  match t.run s with
  | .ok (a, _) => .ok a
  | .error e => .error e

theorem after_of_ok (h : t.run s = .ok (a, s')) : t.after s = s' := by
  unfold after
  rw [h]

@[simp] theorem read_after {s : σ} : (read f : Transaction ε σ α).after s = s := rfl

@[simp] theorem read_answer {s : σ} : (read f : Transaction ε σ α).answer s = .ok (f s) := rfl

/-- **Rollback.**  A transaction that raises leaves the store as it was. -/
theorem after_of_error {s : σ} (h : t.answer s = .error e) : t.after s = s := by
  unfold answer at h
  unfold after
  cases ht : t.run s with
  | error => rfl
  | ok =>
    rw [ht] at h
    cases h

theorem answer_eq_ok {s : σ} :
    t.answer s = .ok a ↔ ∃ s', t.run s = .ok (a, s') := by
  unfold answer
  cases ht : t.run s with
  | error => simp
  | ok p =>
    obtain ⟨b, s'⟩ := p
    simp

/-- A property of the store kept by every committed run is kept by every run. -/
theorem after_induction {P : σ → Prop} {s : σ} (hs : P s) (h : ∀ a s', t.run s = .ok (a, s') → P s') :
    P (t.after s) := by
  unfold after
  cases ht : t.run s with
  | error => exact hs
  | ok p =>
    obtain ⟨a, s'⟩ := p
    exact h a s' ht

/-! ## How a run ends

`Ends t s Q E` says of the run from `s` that an answer and its store satisfy `Q` and an error `E`.
One rule per shape of a body. -/

section Ends

/-- The run from `s` answers within `Q` or raises within `E`. -/
def Ends (t : Transaction ε σ α) (s : σ) (Q : α → σ → Prop) (E : ε → Prop) : Prop :=
  match t.run s with
  | .ok (a, s') => Q a s'
  | .error e => E e

variable {s : σ} {Q : α → σ → Prop} {E : ε → Prop}

theorem Ends.of_ok {t : Transaction ε σ α} {a : α} {s' : σ} (h : Ends t s Q E)
    (hrun : t.run s = .ok (a, s')) : Q a s' := by
  unfold Ends at h
  rwa [hrun] at h

theorem Ends.of_error {t : Transaction ε σ α} {e : ε} (h : Ends t s Q E)
    (hrun : t.run s = .error e) : E e := by
  unfold Ends at h
  rwa [hrun] at h

theorem ends_pure {a : α} (h : Q a s) : Ends (pure a) s Q E := h

theorem ends_throw {e : ε} (h : E e) : Ends (throw e) s Q E := h

theorem ends_read (h : Q (f s) s) : Ends (read f) s Q E := h

theorem ends_write {f : σ → σ} {Q : Unit → σ → Prop} (h : Q () (f s)) : Ends (write f) s Q E := h

theorem ends_raiseIf {c : Prop} [Decidable c] {e : ε} {Q : Unit → σ → Prop} (herror : c → E e)
    (hgo : ¬ c → Q () s) : Ends (raiseIf c e) s Q E := by
  unfold raiseIf
  by_cases hc : c
  · rw [if_pos hc]
    exact ends_throw (herror hc)
  · rw [if_neg hc]
    exact ends_pure (hgo hc)

/-- Sequencing: the rest is run from where the first part answers. -/
theorem Ends.bind {f : α → Transaction ε σ β} {P : α → σ → Prop} {Q : β → σ → Prop}
    (hx : Ends x s P E) (hf : ∀ a s', P a s' → Ends (f a) s' Q E) : Ends (x >>= f) s Q E := by
  unfold Ends at hx ⊢
  rw [StateT.run_bind]
  cases hrun : x.run s with
  | error =>
    rw [hrun] at hx
    exact hx
  | ok p =>
    obtain ⟨a, s'⟩ := p
    rw [hrun] at hx
    exact hf a s' hx

theorem ends_orRaiseError {x : Except ε α} (hok : ∀ a, x = .ok a → Q a s)
    (herror : ∀ e, x = .error e → E e) : Ends (orRaiseError x) s Q E := by
  cases x with
  | error e => exact ends_throw (herror e rfl)
  | ok a => exact ends_pure (hok a rfl)

/-- A loop that may always go on. -/
theorem ends_forM {f : α → Transaction ε σ Unit} {l : List α} {s : σ}
    (h : ∀ a ∈ l, ∀ s, Ends (f a) s (fun _ _ => True) E) :
    Ends (l.forM f) s (fun _ _ => True) E := by
  induction l generalizing s with
  | nil => exact ends_pure trivial
  | cons a l ih =>
    show Ends (f a >>= fun _ => l.forM f) s _ _
    exact (h a List.mem_cons_self s).bind fun _ _ _ =>
      ih fun b hb => h b (List.mem_cons_of_mem _ hb)

end Ends

/-! ## What every committed run does to the store

`Commits R t` relates the store before and after each committed run of `t`.  Where `R` is a preorder
it follows the shape of the body, with no word about what the parts answer. -/

section Commits

/-- Every committed run leads from a store to an `R`-related one. -/
def Commits (R : σ → σ → Prop) (t : Transaction ε σ α) : Prop :=
  ∀ s a s', t.run s = .ok (a, s') → R s s'

variable {R : σ → σ → Prop}

theorem commits_throw (e : ε) : Commits R (throw e : Transaction ε σ α) :=
  fun _ _ _ h => (throw_eq_ok.mp h).elim

theorem commits_write {f : σ → σ} (h : ∀ s, R s (f s)) :
    Commits R (write f : Transaction ε σ Unit) := by
  intro s u s' hrun
  rw [write_eq_ok] at hrun
  rw [← hrun]
  exact h s

theorem Commits.mapError {t : Transaction ε σ α} (ht : Commits R t) (f : ε → ε) :
    Commits R (t.mapError f) := fun s a s' h => ht s a s' (mapError_eq_ok.mp h)

theorem commits_zoom {τ : Type} {view : σ → τ} {put : τ → σ → σ} (t : Transaction ε τ α)
    (h : ∀ s x, R s (put x s)) : Commits R (t.zoom view put) := by
  intro s a s' hrun
  obtain ⟨x, -, hput⟩ := zoom_eq_ok.mp hrun
  rw [← hput]
  exact h s x

/-- A read whose result the rest is known to have come from. -/
theorem commits_read_bind {g : α → Transaction ε σ β}
    (h : ∀ s b s', (g (f s)).run s = .ok (b, s') → R s s') :
    Commits R ((read f : Transaction ε σ α) >>= g) := by
  intro s b s' hrun
  obtain ⟨a, s₁, hread, hrest⟩ := bind_eq_ok.mp hrun
  obtain ⟨rfl, rfl⟩ := read_eq_ok.mp hread
  exact h s b s' hrest

variable [IsPreorder σ R]

theorem commits_pure (a : α) : Commits R (pure a : Transaction ε σ α) := by
  intro s b s' h
  rw [pure_eq_ok] at h
  rw [h.2]
  exact refl s'

theorem commits_read (f : σ → α) : Commits R (read f : Transaction ε σ α) := by
  intro s a s' h
  rw [read_eq_ok] at h
  rw [h.2]
  exact refl s'

theorem commits_raiseIf (c : Prop) [Decidable c] (e : ε) :
    Commits R (raiseIf c e : Transaction ε σ Unit) := by
  unfold raiseIf
  split
  · exact commits_throw e
  · exact commits_pure ()

theorem commits_orRaise (o : Option α) (e : ε) : Commits R (orRaise o e : Transaction ε σ α) := by
  cases o with
  | none => exact commits_throw e
  | some a => exact commits_pure a

theorem commits_orRaiseError (x : Except ε α) :
    Commits R (orRaiseError x : Transaction ε σ α) := by
  cases x with
  | error e => exact commits_throw e
  | ok a => exact commits_pure a

theorem Commits.bind {f : α → Transaction ε σ β} (hx : Commits R x) (hf : ∀ a, Commits R (f a)) :
    Commits R (x >>= f) := by
  intro s b s' h
  obtain ⟨a, s₁, hrun, hrest⟩ := bind_eq_ok.mp h
  exact IsTrans.trans s s₁ s' (hx s a s₁ hrun) (hf a s₁ b s' hrest)

/-- What is kept by committed runs is kept by every run. -/
theorem Commits.after {t : Transaction ε σ α} (ht : Commits R t) (s : σ) : R s (t.after s) :=
  after_induction (P := R s) (refl s) fun a s' h => ht s a s' h

end Commits

end Transaction
