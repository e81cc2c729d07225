/-
# Interleavings of multi-transaction programs

A call of a storage component is a `Program`: a finite sequence of atomic actions
on a shared store, each chosen from the results of the ones before.  Between two
actions every other party may act.

`Program.Holds inv rely guar post p s` says that `p`, started in the store `s`
and disturbed only by steps of `rely` that keep `inv`, changes the store by
steps of `guar` only and, when it is done, satisfies `post`.  It is a weakest
precondition, so it is computed along the program (`holds_bind`).

A `Pool` holds the calls in flight.  Its steps start a call, run one atomic
action of one call, lose a call (a crash of its process, at any point), or let
the environment act.  `Protocol.Sound` collects what has to be checked of each
call alone; `Protocol.Sound.steps` concludes about every interleaving of any
number of them.
-/
import OpenWorkflowAgent.Transactions

/-- A program over the store `σ`: atomic actions, one after the other. -/
inductive Program (σ α : Type) : Type 1
  | done (a : α)
  | atomic {β : Type} (act : σ → β × σ) (next : β → Program σ α)

namespace Program

variable {σ α β : Type}

def bind : Program σ α → (α → Program σ β) → Program σ β
  | .done a, f => f a
  | .atomic act next, f => .atomic act fun b => (next b).bind f

instance : Monad (Program σ) where
  pure := .done
  bind := Program.bind

/-- The program run alone: its answer and the store it leaves. -/
def run : Program σ α → σ → α × σ
  | .done a, s => (a, s)
  | .atomic act next, s => (next (act s).1).run (act s).2

/-! ## What a program does among others -/

section Holds

variable (inv : σ → Prop) (rely guar : σ → σ → Prop)

/-- From `s`, under interference by `rely` steps that keep `inv`, the program
makes only `guar` steps and ends in `post`. -/
def Holds (post : α → σ → Prop) : Program σ α → σ → Prop
  | .done a, s => post a s
  | .atomic act next, s => ∀ s₁, rely s s₁ → inv s₁ →
      guar s₁ (act s₁).2 ∧ Holds post (next (act s₁).1) (act s₁).2

variable {inv rely guar}

variable {p : Program σ α}

theorem holds_mono {post post' : α → σ → Prop} (himp : ∀ a s, post a s → post' a s) {s : σ}
    (h : Holds inv rely guar post p s) :
    Holds inv rely guar post' p s := by
  induction p generalizing s with
  | done a => exact himp a s h
  | atomic _ _ ih =>
    intro s₁ hr hi
    obtain ⟨hg, hn⟩ := h s₁ hr hi
    exact ⟨hg, ih _ hn⟩

/-- A program holds of a sequence when the first part leads to stores from
which the rest holds. -/
theorem holds_bind {post : β → σ → Prop} {f : α → Program σ β} {s : σ} :
    Holds inv rely guar post (p >>= f) s ↔
      Holds inv rely guar (fun a s' => Holds inv rely guar post (f a) s') p s := by
  show Holds inv rely guar post (p.bind f) s ↔ _
  induction p generalizing s with
  | done => exact Iff.rfl
  | atomic _ _ ih =>
    constructor
    · intro h s₁ hr hi
      obtain ⟨hg, hn⟩ := h s₁ hr hi
      exact ⟨hg, (ih _).mp hn⟩
    · intro h s₁ hr hi
      obtain ⟨hg, hn⟩ := h s₁ hr hi
      exact ⟨hg, (ih _).mpr hn⟩

/-- Interference does not disturb what a program does. -/
theorem holds_stable (htrans : ∀ a b c, rely a b → rely b c → rely a c) {post : α → σ → Prop}
    (hpost : ∀ a s s', post a s → rely s s' → inv s' → post a s') {s s' : σ}
    (h : Holds inv rely guar post p s) (hr : rely s s') (hi : inv s') :
    Holds inv rely guar post p s' := by
  cases p with
  | done a => exact hpost a s s' h hr hi
  | atomic => exact fun s₁ hr₁ hi₁ => h s₁ (htrans _ _ _ hr hr₁) hi₁

end Holds

end Program

/-! ## Procedures

A procedure is a program that may raise and that keeps a memory `τ` of its own
(an object of its process, which no other party sees).  A raise skips the rest;
what was committed stays committed and what was assigned stays assigned. -/

/-- A program with a memory `τ` that answers or raises. -/
abbrev Procedure (ε τ σ α : Type) := ExceptT ε (StateT τ (Program σ)) α

namespace Procedure

variable {ε τ σ α β : Type}

/-- The program of a procedure started with the memory `m`. -/
def start (x : Procedure ε τ σ α) (m : τ) : Program σ (Except ε α × τ) := x.run.run m

/-- One transaction: it commits and answers, or raises, atomically. -/
def transaction (t : Transaction ε σ α) : Procedure ε τ σ α :=
  ExceptT.mk fun m => .atomic (fun s => (t.answer s, t.after s)) fun r => .done (r, m)

section Holds

variable (inv : σ → Prop) (rely guar : σ → σ → Prop)

/-- `Program.Holds` for a procedure: `post` speaks of its outcome, its memory and
the store. -/
def Holds (post : Except ε α → τ → σ → Prop) (x : Procedure ε τ σ α) (m : τ) (s : σ) : Prop :=
  Program.Holds inv rely guar (fun r s' => post r.1 r.2 s') (x.start m) s

variable {inv rely guar} {post : Except ε α → τ → σ → Prop} {m : τ} {s : σ}

theorem holds_pure {a : α} :
    Holds inv rely guar post (pure a : Procedure ε τ σ α) m s ↔ post (.ok a) m s := Iff.rfl

theorem holds_throw {e : ε} :
    Holds inv rely guar post (throw e : Procedure ε τ σ α) m s ↔ post (.error e) m s := Iff.rfl

theorem holds_set {post : Except ε PUnit → τ → σ → Prop} {m' : τ} :
    Holds inv rely guar post (set m' : Procedure ε τ σ PUnit) m s ↔ post (.ok ⟨⟩) m' s :=
  Iff.rfl

variable {x : Procedure ε τ σ α} {f : α → Procedure ε τ σ β}

/-- The rest of a procedure starts where its first part answered. -/
theorem holds_bind {post : Except ε β → τ → σ → Prop} :
    Holds inv rely guar post (x >>= f) m s ↔
      Holds inv rely guar (fun r m' s' => match r with
        | .ok a => Holds inv rely guar post (f a) m' s'
        | .error e => post (.error e) m' s') x m s := by
  unfold Holds start
  rw [ExceptT.run_bind, StateT.run_bind, Program.holds_bind]
  have hiff : ∀ (r : Except ε α × τ) (s' : σ),
      Program.Holds inv rely guar (fun q s'' => post q.1 q.2 s'')
        ((match r.1 with
          | .ok a => (f a).run
          | .error e => pure (.error e) : StateT τ (Program σ) (Except ε β)).run r.2) s' ↔
      match r.1 with
        | .ok a => Program.Holds inv rely guar (fun q s'' => post q.1 q.2 s'')
            ((f a).run.run r.2) s'
        | .error e => post (.error e) r.2 s' := by
    intro r s'
    cases r.1 with
    | ok => exact Iff.rfl
    | error => exact Iff.rfl
  constructor
  · exact Program.holds_mono fun r s' => (hiff r s').mp
  · exact Program.holds_mono fun r s' => (hiff r s').mpr

/-- A handler starts where the guarded part raised. -/
theorem holds_tryCatch {handler : ε → Procedure ε τ σ α} :
    Holds inv rely guar post (tryCatch x handler) m s ↔
      Holds inv rely guar (fun r m' s' => match r with
        | .ok a => post (.ok a) m' s'
        | .error e => Holds inv rely guar post (handler e) m' s') x m s := by
  show Program.Holds inv rely guar (fun (r : Except ε α × τ) s' => post r.1 r.2 s')
    (x.run.run m >>= _) s ↔ _
  rw [Program.holds_bind]
  constructor
  · refine Program.holds_mono fun r s' hr => ?_
    obtain ⟨r, m'⟩ := r
    cases r with
    | ok => exact hr
    | error => exact hr
  · refine Program.holds_mono fun r s' hr => ?_
    obtain ⟨r, m'⟩ := r
    cases r with
    | ok => exact hr
    | error => exact hr

/-- One transaction: its effect is a `guar` step, and its outcome is the one of
the store it found. -/
theorem holds_transaction {t : Transaction ε σ α} :
    Holds inv rely guar post (transaction t) m s ↔ ∀ s₁, rely s s₁ → inv s₁ →
      guar s₁ (t.after s₁) ∧ post (t.answer s₁) m (t.after s₁) :=
  Iff.rfl

theorem holds_get_bind {post : Except ε β → τ → σ → Prop} {f : τ → Procedure ε τ σ β} :
    Holds inv rely guar post (get >>= f) m s ↔ Holds inv rely guar post (f m) m s :=
  holds_bind

theorem holds_raiseIf_bind {post : Except ε β → τ → σ → Prop} {c : Prop} [Decidable c] {e : ε}
    {f : Unit → Procedure ε τ σ β} :
    Holds inv rely guar post (raiseIf c e >>= f) m s ↔
      (c → post (.error e) m s) ∧ (¬ c → Holds inv rely guar post (f ()) m s) := by
  rw [holds_bind]
  unfold raiseIf
  by_cases hc : c
  · rw [if_pos hc, holds_throw]
    exact ⟨fun h => ⟨fun _ => h, fun hn => absurd hc hn⟩, fun h => h.1 hc⟩
  · rw [if_neg hc, holds_pure]
    exact ⟨fun h => ⟨fun hp => absurd hp hc, fun _ => h⟩, fun h => h.2 hc⟩

theorem holds_orRaise_bind {post : Except ε β → τ → σ → Prop} {o : Option α} {e : ε} :
    Holds inv rely guar post (orRaise o e >>= f) m s ↔
      (o = none → post (.error e) m s) ∧
        ∀ a, o = some a → Holds inv rely guar post (f a) m s := by
  rw [holds_bind]
  unfold orRaise
  cases o with
  | none => simp [holds_throw]
  | some => simp [holds_pure]

theorem holds_orRaiseError_bind {post : Except ε β → τ → σ → Prop} {x : Except ε α} :
    Holds inv rely guar post (orRaiseError x >>= f) m s ↔
      (∀ e, x = .error e → post (.error e) m s) ∧
        ∀ a, x = .ok a → Holds inv rely guar post (f a) m s := by
  rw [holds_bind]
  unfold orRaiseError
  cases x with
  | ok => simp [holds_pure]
  | error => simp [holds_throw]

theorem holds_mono {post' : Except ε α → τ → σ → Prop} (himp : ∀ r m s, post r m s → post' r m s)
    (h : Holds inv rely guar post x m s) : Holds inv rely guar post' x m s := by
  unfold Holds at h ⊢
  exact Program.holds_mono (fun (r : Except ε α × τ) s' => himp r.1 r.2 s') h

end Holds

/-! ### Procedures without actions -/

/-- A procedure that takes no action and leaves its memory alone: it only answers or
raises. -/
def Silent (x : Procedure ε τ σ α) : Prop :=
  ∀ (inv : σ → Prop) (rely guar : σ → σ → Prop) (post : Except ε α → τ → σ → Prop) (m : τ) (s : σ),
    (∀ r, post r m s) → Holds inv rely guar post x m s

theorem silent_pure (a : α) : Silent (pure a : Procedure ε τ σ α) :=
  fun _ _ _ _ _ _ h => h (.ok a)

theorem silent_throw (e : ε) : Silent (throw e : Procedure ε τ σ α) :=
  fun _ _ _ _ _ _ h => h (.error e)

theorem silent_raiseIf (c : Prop) [Decidable c] (e : ε) :
    Silent (raiseIf c e : Procedure ε τ σ Unit) := by
  unfold raiseIf
  split
  · exact silent_throw e
  · exact silent_pure ()

theorem silent_orRaise (o : Option α) (e : ε) : Silent (orRaise o e : Procedure ε τ σ α) := by
  cases o with
  | none => exact silent_throw e
  | some a => exact silent_pure a

theorem silent_orRaiseError (x : Except ε α) :
    Silent (orRaiseError x : Procedure ε τ σ α) := by
  cases x with
  | ok a => exact silent_pure a
  | error e => exact silent_throw e

/-- A silent part, and what follows it in the same store. -/
theorem Silent.holds_bind {x : Procedure ε τ σ α} (hx : Silent x)
    {inv : σ → Prop} {rely guar : σ → σ → Prop} {post : Except ε β → τ → σ → Prop}
    {f : α → Procedure ε τ σ β} {m : τ} {s : σ} (herr : ∀ e, post (.error e) m s)
    (hok : ∀ a, Holds inv rely guar post (f a) m s) :
    Holds inv rely guar post (x >>= f) m s := by
  rw [Procedure.holds_bind]
  refine hx _ _ _ _ m s fun r => ?_
  cases r with
  | ok a => exact hok a
  | error e => exact herr e

theorem Silent.bind {x : Procedure ε τ σ α} {f : α → Procedure ε τ σ β} (hx : Silent x)
    (hf : ∀ a, Silent (f a)) : Silent (x >>= f) :=
  fun inv rely guar post m s h =>
    hx.holds_bind (fun e => h (.error e)) fun a => hf a inv rely guar post m s h

/-! ### Procedures that keep a property

`Keeps I x` says that `x`, started where `I` holds of its memory and the store, makes only `guar`
steps and leaves `I` true, whether it answers or raises.  It composes without a word about what the
parts answer. -/

section Keeps

variable (inv : σ → Prop) (rely guar : σ → σ → Prop)

/-- The procedure makes `guar` steps only and keeps `I` of its memory and the store. -/
def Keeps (I : τ → σ → Prop) (x : Procedure ε τ σ α) : Prop :=
  ∀ m s, I m s → Holds inv rely guar (fun _ m' s' => I m' s') x m s

variable {inv rely guar} {I : τ → σ → Prop}

theorem keeps_pure (a : α) : Keeps inv rely guar I (pure a : Procedure ε τ σ α) :=
  fun _ _ h => h

theorem keeps_get : Keeps inv rely guar I (get : Procedure ε τ σ τ) := fun _ _ h => h

variable {x : Procedure ε τ σ α}

theorem Silent.keeps (hx : Silent x) : Keeps inv rely guar I x :=
  fun m s h => hx inv rely guar _ m s fun _ => h

theorem Keeps.bind {f : α → Procedure ε τ σ β} (hx : Keeps inv rely guar I x)
    (hf : ∀ a, Keeps inv rely guar I (f a)) :
    Keeps inv rely guar I (x >>= f) := by
  intro m s h
  rw [holds_bind]
  refine holds_mono (fun r m' s' hI => ?_) (hx m s h)
  cases r with
  | ok a => exact hf a m' s' hI
  | error => exact hI

theorem Keeps.tryCatch {handler : ε → Procedure ε τ σ α} (hx : Keeps inv rely guar I x)
    (hhandler : ∀ e, Keeps inv rely guar I (handler e)) :
    Keeps inv rely guar I (tryCatch x handler) := by
  intro m s h
  rw [holds_tryCatch]
  refine holds_mono (fun r m' s' hI => ?_) (hx m s h)
  cases r with
  | ok => exact hI
  | error e => exact hhandler e m' s' hI

/-- One transaction, if interference and the transaction itself keep the property. -/
theorem keeps_transaction {t : Transaction ε σ α}
    (hrely : ∀ m s s', I m s → rely s s' → inv s' → I m s')
    (hguar : ∀ s, inv s → guar s (t.after s))
    (hown : ∀ m s, I m s → inv s → I m (t.after s)) :
    Keeps inv rely guar I (transaction t : Procedure ε τ σ α) := by
  intro m s h
  rw [holds_transaction]
  intro s₁ hr hi
  exact ⟨hguar s₁ hi, hown m s₁ (hrely m s s₁ h hr hi) hi⟩

/-- What a procedure that keeps `I` starts from may be used by what follows it. -/
theorem Keeps.holds_bind {f : α → Procedure ε τ σ β} {post : Except ε β → τ → σ → Prop} {m : τ}
    {s : σ} (hx : Keeps inv rely guar I x) (h : I m s)
    (herr : ∀ e m' s', I m' s' → post (.error e) m' s')
    (hok : ∀ a m' s', I m' s' → Holds inv rely guar post (f a) m' s') :
    Holds inv rely guar post (x >>= f) m s := by
  rw [Procedure.holds_bind]
  refine holds_mono (fun r m' s' hI => ?_) (hx m s h)
  cases r with
  | ok a => exact hok a m' s' hI
  | error e => exact herr e m' s' hI

end Keeps

end Procedure

/-! ## Pools of calls -/

/-- The calls in flight over one store, and all calls ever started. -/
structure Pool (C σ α : Type) : Type 1 where
  store : σ
  started : List C
  running : List (C × Program σ α)

/-- A protocol: the program of each call, what its caller promises when the call
starts, which two calls may both be made, and what else changes the store. -/
structure Protocol (C σ α : Type) : Type 1 where
  body : C → Program σ α
  pre : C → σ → Prop
  apart : C → C → Prop
  env : σ → σ → Prop

namespace Protocol

variable {C σ α : Type}

inductive Step (P : Protocol C σ α) : Pool C σ α → Pool C σ α → Prop
  | start (p : Pool C σ α) (c : C) (hpre : P.pre c p.store)
      (hapart : ∀ c' ∈ p.started, P.apart c c') :
      Step P p ⟨p.store, c :: p.started, (c, P.body c) :: p.running⟩
  | act (s : σ) (started : List C) (before after : List (C × Program σ α)) (c : C) {β : Type}
      (act : σ → β × σ) (next : β → Program σ α) :
      Step P ⟨s, started, before ++ (c, .atomic act next) :: after⟩
        ⟨(act s).2, started, before ++ (c, next (act s).1) :: after⟩
  | crash (s : σ) (started : List C) (before after : List (C × Program σ α))
      (lost : C × Program σ α) :
      Step P ⟨s, started, before ++ lost :: after⟩ ⟨s, started, before ++ after⟩
  | env (p : Pool C σ α) (s' : σ) (henv : P.env p.store s') :
      Step P p { p with store := s' }

def Steps (P : Protocol C σ α) : Pool C σ α → Pool C σ α → Prop :=
  Relation.ReflTransGen P.Step

/-- The pool over a store before any call. -/
def initial (s : σ) : Pool C σ α := ⟨s, [], []⟩

theorem steps_run (P : Protocol C σ α) (started : List C) (c : C) (q : Program σ α)
    (rest : List (C × Program σ α)) (s : σ) :
    P.Steps ⟨s, started, (c, q) :: rest⟩
      ⟨(q.run s).2, started, (c, .done (q.run s).1) :: rest⟩ := by
  induction q generalizing s with
  | done => exact Relation.ReflTransGen.refl
  | atomic act next ih =>
    exact (Relation.ReflTransGen.single (Step.act s started [] rest c act next)).trans
      (ih (act s).1 (act s).2)

/-- The pool after one more call started and ran to its end. -/
def ran (P : Protocol C σ α) (p : Pool C σ α) (c : C) : Pool C σ α :=
  ⟨((P.body c).run p.store).2, c :: p.started, (c, .done ((P.body c).run p.store).1) :: p.running⟩

theorem steps_ran (P : Protocol C σ α) (p : Pool C σ α) (c : C) (hpre : P.pre c p.store)
    (hapart : ∀ c' ∈ p.started, P.apart c c') : P.Steps p (P.ran p c) :=
  (Relation.ReflTransGen.single (Step.start p c hpre hapart)).trans
    (steps_run P (c :: p.started) c (P.body c) p.running p.store)

/-- `p'` is the pool `p` after one atomic action of the call `c`. -/
def Acts (c : C) (p p' : Pool C σ α) : Prop :=
  ∃ (before after : List (C × Program σ α)) (β : Type) (act : σ → β × σ)
    (next : β → Program σ α), p.running = before ++ (c, .atomic act next) :: after ∧
      p' = ⟨(act p.store).2, p.started, before ++ (c, next (act p.store).1) :: after⟩

/-- What has to be checked of each call alone. -/
structure Sound (P : Protocol C σ α) (inv : σ → Prop) (rely guar : C → σ → σ → Prop)
    (post : C → α → σ → Prop) : Prop where
  rely_refl : ∀ c s, rely c s s
  rely_trans : ∀ c s₁ s₂ s₃, rely c s₁ s₂ → rely c s₂ s₃ → rely c s₁ s₃
  apart_symm : ∀ c c', P.apart c c' → P.apart c' c
  /-- A call's own steps look like interference to the calls apart from it. -/
  guar_rely : ∀ c c' s s', P.apart c c' → inv s → guar c s s' → rely c' s s'
  env_rely : ∀ c s s', inv s → P.env s s' → rely c s s'
  guar_inv : ∀ c s s', inv s → guar c s s' → inv s'
  env_inv : ∀ s s', inv s → P.env s s' → inv s'
  post_stable : ∀ c a s s', post c a s → rely c s s' → inv s' → post c a s'
  body_holds : ∀ c s, inv s → P.pre c s →
    Program.Holds inv (rely c) (guar c) (post c) (P.body c) s

/-- Every call in flight still does what it promises, and the calls in flight
are pairwise apart and among the started ones. -/
structure Good (P : Protocol C σ α) (inv : σ → Prop) (rely guar : C → σ → σ → Prop)
    (post : C → α → σ → Prop) (p : Pool C σ α) : Prop where
  inv_store : inv p.store
  running_apart : p.running.Pairwise fun x y => P.apart x.1 y.1
  running_started : ∀ x ∈ p.running, x.1 ∈ p.started
  running_holds : ∀ x ∈ p.running,
    Program.Holds inv (rely x.1) (guar x.1) (post x.1) x.2 p.store

section Soundness

variable {P : Protocol C σ α} {inv : σ → Prop} {rely guar : C → σ → σ → Prop}
  {post : C → α → σ → Prop}

theorem good_initial {s : σ} (h : inv s) : Good P inv rely guar post (initial s) where
  inv_store := h
  running_apart := List.Pairwise.nil
  running_started := by simp [initial]
  running_holds := by simp [initial]

/-- A running call survives a step of the store that it relies on. -/
theorem Sound.holds_of_rely (hP : P.Sound inv rely guar post) {x : C × Program σ α} {s s' : σ}
    (h : Program.Holds inv (rely x.1) (guar x.1) (post x.1) x.2 s) (hr : rely x.1 s s')
    (hi : inv s') : Program.Holds inv (rely x.1) (guar x.1) (post x.1) x.2 s' :=
  Program.holds_stable (hP.rely_trans x.1) (hP.post_stable x.1) h hr hi

variable {p p' : Pool C σ α}

section

variable (hP : P.Sound inv rely guar post)

include hP

/-- **One step.**  Every step keeps the pool good. -/
theorem Sound.step (h : Good P inv rely guar post p) (hs : P.Step p p') :
    Good P inv rely guar post p' := by
  cases hs with
  | start _ c hpre hapart =>
    refine ⟨h.inv_store, ?_, ?_, ?_⟩
    · exact List.Pairwise.cons (fun x hx => hapart _ (h.running_started x hx)) h.running_apart
    · intro x hx
      rcases List.mem_cons.mp hx with rfl | hx
      · exact List.mem_cons_self
      · exact List.mem_cons_of_mem _ (h.running_started x hx)
    · intro x hx
      rcases List.mem_cons.mp hx with rfl | hx
      · exact hP.body_holds c p.store h.inv_store hpre
      · exact h.running_holds x hx
  | act s _ before after c act next =>
    have hc := h.running_holds (c, .atomic act next) (by simp)
    obtain ⟨hg, hn⟩ := hc s (hP.rely_refl c s) h.inv_store
    have hinv : inv (act s).2 := hP.guar_inv c s _ h.inv_store hg
    have hap := h.running_apart
    rw [List.pairwise_append, List.pairwise_cons] at hap
    -- every other call in flight is apart from `c`, so it relied on this step
    have hothers : ∀ x ∈ before ++ after,
        Program.Holds inv (rely x.1) (guar x.1) (post x.1) x.2 (act s).2 := by
      intro x hx
      have hxc : P.apart c x.1 := by
        rcases List.mem_append.mp hx with hx | hx
        · exact hP.apart_symm _ _ (hap.2.2 x hx _ List.mem_cons_self)
        · exact hap.2.1.1 x hx
      have hold := h.running_holds x (by
        rcases List.mem_append.mp hx with hx | hx <;> simp [hx])
      exact hP.holds_of_rely hold (hP.guar_rely c x.1 s _ hxc h.inv_store hg) hinv
    refine ⟨hinv, ?_, ?_, ?_⟩
    · rw [List.pairwise_append, List.pairwise_cons]
      refine ⟨hap.1, ⟨hap.2.1.1, hap.2.1.2⟩, fun x hx y hy => ?_⟩
      rcases List.mem_cons.mp hy with rfl | hy
      · exact hap.2.2 x hx (c, .atomic act next) List.mem_cons_self
      · exact hap.2.2 x hx y (List.mem_cons_of_mem _ hy)
    · intro x hx
      rcases List.mem_append.mp hx with hx | hx
      · exact h.running_started x (by simp [hx])
      · rcases List.mem_cons.mp hx with rfl | hx
        · exact h.running_started (c, .atomic act next) (by simp)
        · exact h.running_started x (by simp [hx])
    · intro x hx
      rcases List.mem_append.mp hx with hx | hx
      · exact hothers x (by simp [hx])
      · rcases List.mem_cons.mp hx with rfl | hx
        · exact hn
        · exact hothers x (by simp [hx])
  | crash _ _ before after lost =>
    have hsub : List.Sublist (before ++ after) (before ++ lost :: after) :=
      List.Sublist.append_left (List.sublist_cons_self _ _) _
    exact ⟨h.inv_store, h.running_apart.sublist hsub,
      fun x hx => h.running_started x (hsub.subset hx),
      fun x hx => h.running_holds x (hsub.subset hx)⟩
  | env _ s' henv =>
    have hinv : inv s' := hP.env_inv _ _ h.inv_store henv
    exact ⟨hinv, h.running_apart, h.running_started, fun x hx =>
      hP.holds_of_rely (h.running_holds x hx)
        (hP.env_rely x.1 _ _ h.inv_store henv) hinv⟩

/-- **Any run.**  Every pool reached from a good one is good. -/
theorem Sound.steps (h : Good P inv rely guar post p) (hs : P.Steps p p') :
    Good P inv rely guar post p' := by
  induction hs with
  | refl => exact h
  | tail _ hstep ih => exact hP.step ih hstep

/-- One step changes the store by a guaranteed action of a started call, by the
environment, or not at all. -/
theorem Sound.step_acts (h : Good P inv rely guar post p) (hs : P.Step p p') :
    p'.store = p.store ∨ (∃ c ∈ p.started, Acts c p p' ∧ guar c p.store p'.store) ∨
      P.env p.store p'.store := by
  cases hs with
  | start => exact Or.inl rfl
  | act s _ before after c act next =>
    have hc := h.running_holds (c, .atomic act next) (by simp)
    obtain ⟨hg, -⟩ := hc s (hP.rely_refl c s) h.inv_store
    exact Or.inr (Or.inl ⟨c, h.running_started (c, .atomic act next) (by simp),
      ⟨before, after, _, act, next, rfl, rfl⟩, hg⟩)
  | crash => exact Or.inl rfl
  | env _ _ henv => exact Or.inr (Or.inr henv)

theorem Sound.step_store (h : Good P inv rely guar post p) (hs : P.Step p p') :
    p'.store = p.store ∨ (∃ c ∈ p.started, guar c p.store p'.store) ∨ P.env p.store p'.store := by
  rcases hP.step_acts h hs with heq | ⟨c, hc, -, hg⟩ | henv
  · exact Or.inl heq
  · exact Or.inr (Or.inl ⟨c, hc, hg⟩)
  · exact Or.inr (Or.inr henv)

/-- A reflexive and transitive relation that contains every guaranteed step and
every step of the environment relates the stores of a whole run. -/
theorem Sound.steps_store {R : σ → σ → Prop} (hrefl : ∀ s, R s s)
    (htrans : ∀ a b c, R a b → R b c → R a c) (hguar : ∀ c s s', inv s → guar c s s' → R s s')
    (henv : ∀ s s', inv s → P.env s s' → R s s') (h : Good P inv rely guar post p)
    (hs : P.Steps p p') : R p.store p'.store := by
  induction hs with
  | refl => exact hrefl _
  | @tail q q' hpq hstep ih =>
    have hq := hP.steps h hpq
    refine htrans _ _ _ ih ?_
    rcases hP.step_store hq hstep with heq | ⟨c, -, hg⟩ | he
    · rw [heq]
      exact hrefl _
    · exact hguar c _ _ hq.inv_store hg
    · exact henv _ _ hq.inv_store he

/-- A property of the started calls and the store, kept by every start, by every
guaranteed step of a started call and by the environment, holds of every pool. -/
theorem Sound.steps_induction {J : List C → σ → Prop} {s : σ} (hinit : J [] s)
    (hstart : ∀ cs c s, P.pre c s → (∀ c' ∈ cs, P.apart c c') → J cs s → J (c :: cs) s)
    (hguar : ∀ cs c s s', c ∈ cs → inv s → guar c s s' → J cs s → J cs s')
    (henv : ∀ cs s s', P.env s s' → J cs s → J cs s') (hs : inv s) (hp : P.Steps (initial s) p) :
    J p.started p.store := by
  induction hp with
  | refl => exact hinit
  | @tail q q' hpq hstep ih =>
    have hq := hP.steps (good_initial hs) hpq
    cases hstep with
    | start _ c hpre hapart => exact hstart _ c _ hpre hapart ih
    | act s _ _ _ c act next =>
      have hc := hq.running_holds (c, .atomic act next) (by simp)
      obtain ⟨hg, -⟩ := hc s (hP.rely_refl c s) hq.inv_store
      exact hguar _ c _ _ (hq.running_started (c, .atomic act next) (by simp)) hq.inv_store hg ih
    | crash => exact ih
    | env _ s' he => exact henv _ _ s' he ih

end

end Soundness

end Protocol
