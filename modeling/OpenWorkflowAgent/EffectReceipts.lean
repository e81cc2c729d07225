/-
# Effect receipts are written once

Any number of processes call the operations of the journal, for any identities and
owners and in any interleaving of their transactions.  `WriteOnce` relates the
tables before and after: a row keeps its owner and request digest, and everything
once it is resolved.

A call is trusted with a row by `Authorized`: it completes the identity of the row
and carries its owner, or it is `finish_child` under the live lease of the parent
and the binding of the identity to the child.  `Guarantee` says that a call changes
existing rows only so.  The initial tables are arbitrary.
-/
import OpenWorkflowAgent.Interleavings
import OpenWorkflowAgent.EffectJournal

open Transaction EffectJournal Procedure

namespace EffectReceipts

/-! ## Calls -/

inductive Call where
  | begin (identity : EffectIdentity) (requestDigest owner : String)
      (operationId : Option String) (lease : Option ExecutionLease)
  | recordValue (identity : EffectIdentity) (requestDigest : String)
      (create : Except OwaError Json) (lease : Option ExecutionLease)
  | finish (identity : EffectIdentity) (owner : String) (o : Outcome)
  | finishOwned (identity : EffectIdentity) (owner : String) (lease : Option ExecutionLease)
      (o : Outcome)
  | finishGrpc (identity : EffectIdentity) (owner : String) (lease : Option ExecutionLease)
      (o : Outcome)
  | finishChild (identity : EffectIdentity) (requestDigest childId : String)
      (lease : Option ExecutionLease) (o : Outcome)
  | insertCompleted (identity : EffectIdentity) (receipt : EffectReceipt)
  | insertPending (identity : EffectIdentity) (receipt : EffectReceipt)

variable (sv : JournalServices)

/-- The procedure of a call; the inserting participants answer nothing. -/
def procedure : Call → Procedure OwaError Unit JournalStore (Option EffectReceipt)
  | .begin identity requestDigest owner operationId lease => do
      let receipt ← EffectJournal.begin sv identity requestDigest owner operationId lease
      return some receipt
  | .recordValue identity requestDigest create lease => do
      let receipt ← Procedure.transaction
        (EffectJournal.recordValue sv identity requestDigest create lease)
      return some receipt
  | .finish identity owner o => do
      let receipt ← EffectJournal.finish sv identity owner o
      return some receipt
  | .finishOwned identity owner lease o => do
      let receipt ← Procedure.transaction
        (EffectJournal.finishOwned sv identity owner lease o)
      return some receipt
  | .finishGrpc identity owner lease o => do
      let receipt ← Procedure.transaction
        (EffectJournal.finishGrpc sv identity owner lease o)
      return some receipt
  | .finishChild identity requestDigest childId lease o => do
      let receipt ← EffectJournal.finishChild sv identity requestDigest childId lease o
      return some receipt
  | .insertCompleted identity receipt => do
      Procedure.transaction (insertCompletedReceipt sv identity receipt)
      return none
  | .insertPending identity receipt => do
      Procedure.transaction (insertPendingReceipt sv identity receipt)
      return none

/-- Everything else in the runtime leaves the two tables of the journal alone. -/
structure Elsewhere (s s' : JournalStore) : Prop where
  effects : s'.effects = s.effects
  index : s'.effectInvocations = s.effectInvocations

/-- The protocol of the journal: calls promise nothing to each other. -/
def protocol : Protocol Call JournalStore (Except OwaError (Option EffectReceipt) × Unit) where
  body c := (procedure sv c).start ()
  pre _ _ := True
  apart _ _ := True
  env := Elsewhere

/-! ## What a call does -/

/-- A call that completes the identity of key `k` in the name of `owner`. -/
def Carries (c : Call) (k owner : String) : Prop :=
  match c with
  | .finish identity o _ => sv.key identity = k ∧ o = owner
  | .finishOwned identity o _ _ => sv.key identity = k ∧ o = owner
  | .finishGrpc identity o _ _ => sv.key identity = k ∧ o = owner
  | _ => False

/-- A call that may resolve the row of key `k` with the given owner. -/
inductive Authorized (c : Call) (k owner : String) (s : JournalStore) : Prop
  | carries (h : Carries sv c k owner)
  | child (identity : EffectIdentity) (requestDigest childId : String) (lease : ExecutionLease)
      (o : Outcome) (hcall : c = .finishChild identity requestDigest childId (some lease) o)
      (hkey : sv.key identity = k) (hauth : ChildAuthority sv identity childId lease s)

/-- What one transaction of a call does to the rows. -/
structure Guarantee (c : Call) (s s' : JournalStore) : Prop where
  writeOnce : WriteOnce s s'
  authorized : ∀ k row row', s.effects.lookup k = some row → s'.effects.lookup k = some row' →
    row' ≠ row → Authorized sv c k row.owner s

section Calls

variable {sv} {c : Call} {s s' : JournalStore}

theorem Guarantee.of_inserts (h : Inserts s s') : Guarantee sv c s s' := by
  refine ⟨h.writeOnce, fun k row row' hrow hrow' hne => ?_⟩
  have hsame := h.effects k row hrow
  rw [hrow', Option.some.injEq] at hsame
  exact absurd hsame hne

theorem Guarantee.refl (s : JournalStore) : Guarantee sv c s s :=
  Guarantee.of_inserts (Inserts.refl s)

theorem Guarantee.of_resolves {k owner : String} (h : Resolves k owner s s')
    (hauth : Authorized sv c k owner s) : Guarantee sv c s s' := by
  refine ⟨h.writeOnce, fun k' row row' hrow hrow' hne => ?_⟩
  obtain ⟨rfl, rfl⟩ := h.only k' row row' hrow hrow' hne
  exact hauth

/-- A call under interference, with nothing to show of its answer. -/
def Behaves {α : Type} (sv : JournalServices) (c : Call)
    (x : Procedure OwaError Unit JournalStore α) (s : JournalStore) : Prop :=
  Procedure.Holds (fun _ => True) WriteOnce (Guarantee sv c) (fun _ _ _ => True) x () s

theorem behaves_bind_pure {α β : Type} {f : α → β} {x : Procedure OwaError Unit JournalStore α}
    (h : Behaves sv c x s) : Behaves sv c (x >>= fun a => pure (f a)) s := by
  rw [Behaves, holds_bind]
  refine holds_mono (fun r m s' _ => ?_) h
  cases r with
  | error => trivial
  | ok => trivial

theorem allows : Allows (fun _ => True) (fun _ => True) WriteOnce (Guarantee sv c)
    (Guarantee sv c) where
  writeOnce _ _ hw := hw
  stable _ _ _ _ _ := trivial
  refl := Guarantee.refl
  steps _ _ _ _ hg := ⟨hg, trivial⟩

/-- One transaction behaves when its committed runs do. -/
theorem behaves_transaction {α : Type} {t : Transaction OwaError JournalStore α}
    (h : ∀ s a s', t.run s = .ok (a, s') → Guarantee sv c s s') :
    Behaves sv c (Procedure.transaction t) s :=
  allows.holds_transaction trivial (fun s₁ a s₂ _ hrun => h s₁ a s₂ hrun) (fun _ _ _ => trivial)
    (fun _ _ _ _ _ _ => trivial)

theorem answerChild_behaves (identity : EffectIdentity) (settled : Option EffectReceipt) :
    Behaves sv c (answerChild sv identity settled) s := by
  cases settled with
  | some => trivial
  | none =>
    unfold answerChild
    refine allows.holds_getReceipt_bind trivial (fun _ _ _ => trivial) fun s₁ stored _ _ => ?_
    simp only [holds_orRaise_bind, holds_raiseIf_bind,
      holds_pure, implies_true, and_self]

theorem finishChild_behaves {identity : EffectIdentity} {requestDigest childId : String}
    {lease : Option ExecutionLease} {o : Outcome}
    (hc : c = .finishChild identity requestDigest childId lease o) :
    Behaves sv c (EffectJournal.finishChild sv identity requestDigest childId lease o) s := by
  unfold EffectJournal.finishChild
  rw [Behaves, holds_raiseIf_bind]
  refine ⟨fun _ => trivial, fun _ => ?_⟩
  rw [holds_orRaise_bind]
  refine ⟨fun _ => trivial, ?_⟩
  rintro l rfl
  refine allows.holds_transaction_bind trivial (fun s₁ settled s₂ _ hrun => ?_)
    (fun _ _ _ => trivial) fun _ settled s₂ _ _ => answerChild_behaves identity settled
  · rcases storeChild_resolves hrun with rfl | ⟨owner, hres, hauth⟩
    · exact Guarantee.refl s₂
    · exact Guarantee.of_resolves hres (.child identity requestDigest childId l o hc rfl hauth)

/-- **Each call alone.**  Every operation changes the rows only as it is trusted to. -/
theorem procedure_behaves : Behaves sv c (procedure sv c) s := by
  cases c with
  | begin =>
    exact behaves_bind_pure (allows.begin_holds (fun _ _ => Guarantee.of_inserts) trivial
      (fun _ _ _ => trivial) (fun _ _ _ _ => trivial))
  | recordValue =>
    exact behaves_bind_pure (behaves_transaction fun _ _ _ h =>
      Guarantee.of_inserts (recordValue_inserts h))
  | finish identity owner o =>
    have hmay : ∀ s s', Resolves (sv.key identity) owner s s' →
        Guarantee sv (.finish identity owner o) s s' :=
      fun _ _ hres => Guarantee.of_resolves hres (.carries ⟨rfl, rfl⟩)
    exact behaves_bind_pure (allows.finish_holds hmay trivial (fun _ _ _ => trivial)
      (fun _ _ _ _ _ => trivial))
  | finishOwned =>
    exact behaves_bind_pure (behaves_transaction fun _ _ _ h =>
      Guarantee.of_resolves (finishOwned_resolves h) (.carries ⟨rfl, rfl⟩))
  | finishGrpc =>
    exact behaves_bind_pure (behaves_transaction fun _ _ _ h =>
      Guarantee.of_resolves (finishGrpc_resolves h) (.carries ⟨rfl, rfl⟩))
  | finishChild =>
    exact behaves_bind_pure (finishChild_behaves rfl)
  | insertCompleted =>
    exact behaves_bind_pure (behaves_transaction fun _ _ _ h =>
      Guarantee.of_inserts (insertCompletedReceipt_inserts h))
  | insertPending =>
    exact behaves_bind_pure (behaves_transaction fun _ _ _ h =>
      Guarantee.of_inserts (insertPendingReceipt_inserts h))

end Calls

/-! ## Every interleaving -/

theorem Elsewhere.writeOnce {s s' : JournalStore} (h : Elsewhere s s') : WriteOnce s s' := by
  refine ⟨fun k row hrow => ⟨row, ?_, rfl, rfl, fun _ => rfl⟩, fun k row hrow => ?_⟩
  · rw [h.effects, hrow]
  · rw [h.index, hrow]

theorem protocol_sound : (protocol sv).Sound (fun _ => True) (fun _ => WriteOnce) (Guarantee sv)
    (fun _ _ _ => True) where
  rely_refl _ := WriteOnce.refl
  rely_trans _ _ _ _ := WriteOnce.trans
  apart_symm _ _ _ := trivial
  guar_rely _ _ _ _ _ _ hg := hg.writeOnce
  env_rely _ _ _ _ he := he.writeOnce
  guar_inv _ _ _ _ _ := trivial
  env_inv _ _ _ _ := trivial
  post_stable _ _ _ _ _ _ _ := trivial
  body_holds _ _ _ _ := procedure_behaves

/-- **Receipts are write-once.**  Along every run of any calls, from any tables, a
row keeps its owner and request digest, and all of itself once it is resolved; and
a step that changes a row is an action of a call that carries its owner, or of
`finish_child` under the lease of the parent and the binding of the child. -/
theorem effect_receipts_write_once {s₀ : JournalStore}
    {p : Pool Call JournalStore (Except OwaError (Option EffectReceipt) × Unit)}
    (hp : (protocol sv).Steps (Protocol.initial s₀) p) :
    (∀ p', (protocol sv).Steps p p' → WriteOnce p.store p'.store) ∧
      ∀ p', (protocol sv).Step p p' → ∀ k row row',
        p.store.effects.lookup k = some row → p'.store.effects.lookup k = some row' →
        row' ≠ row → row.status = .pending ∧
          ∃ c ∈ p.started, Protocol.Acts c p p' ∧ Authorized sv c k row.owner p.store := by
  have hsound := protocol_sound sv
  have hgood := hsound.steps (Protocol.good_initial trivial) hp
  refine ⟨fun p' hsteps => ?_, fun p' hstep k row row' hrow hrow' hne => ?_⟩
  · exact hsound.steps_store WriteOnce.refl (fun _ _ _ => WriteOnce.trans)
      (fun _ _ _ _ hg => hg.writeOnce) (fun _ _ _ he => he.writeOnce) hgood hsteps
  · rcases hsound.step_acts hgood hstep with heq | ⟨c, hc, hacts, hg⟩ | henv
    · rw [heq, hrow, Option.some.injEq] at hrow'
      exact absurd hrow'.symm hne
    · refine ⟨?_, c, hc, hacts, hg.authorized k row row' hrow hrow' hne⟩
      by_contra hnot
      obtain ⟨row₂, hrow₂, -, -, hkept⟩ := hg.writeOnce.effects k row hrow
      rw [hrow', Option.some.injEq] at hrow₂
      exact hne (hrow₂.trans (hkept hnot))
    · rw [henv.effects, hrow, Option.some.injEq] at hrow'
      exact absurd hrow'.symm hne

def sampleIdentity : EffectIdentity := .firstCall

def sampleLease : ExecutionLease where
  invocationId := "i"
  engine := "langgraph"
  workflowFingerprint := "f"
  owner := "0123456789abcdef0123456789abcdef"
  generation := 1
  expiresAt := 10
  named := by decide
  generation_pos := Nat.one_pos
  expires_pos := by norm_num
  owner_hex := by decide

/-- A journal without rows, at an instant at which the sample lease is live. -/
def sampleStore : JournalStore where
  runtime := ⟨⟨1, (∅ : Table String OwnershipRow).put "i"
    ⟨"langgraph", "f", "0123456789abcdef0123456789abcdef", 1, 10⟩⟩, ∅, ∅, ∅, []⟩
  effects := ∅
  effectInvocations := ∅
  childBindings := ∅
  dispatched := []

def sampleBegin : Call := .begin sampleIdentity
  "0123456789abcdef0123456789abcdef0123456789abcdef0123456789abcdef" "o" none (some sampleLease)

def sampleFinish : Call := .finishOwned sampleIdentity "o" (some sampleLease)
  ⟨.int 7, none, none, none, none⟩

/-- An intent is stored and then completed by its owner: the row was pending, and it
keeps what it has to keep. -/
theorem effect_receipts_write_once_completed :
    ∃ p p', (protocol .permissive).Steps (Protocol.initial sampleStore) p ∧
      (protocol .permissive).Steps p p' ∧
      (p.store.effects.lookup "call:http").map EffectRow.status = some .pending ∧
      (p'.store.effects.lookup "call:http").map EffectRow.status = some .completed ∧
      WriteOnce p.store p'.store := by
  have hfirst := Protocol.steps_ran (protocol .permissive)
    (Protocol.initial sampleStore) sampleBegin trivial (fun _ _ => trivial)
  have hsecond := fun p => Protocol.steps_ran (protocol .permissive) p sampleFinish
    trivial (fun _ _ => trivial)
  exact ⟨_, _, hfirst, hsecond _, by decide +kernel, by decide +kernel,
    (effect_receipts_write_once .permissive hfirst).1 _ (hsecond _)⟩

end EffectReceipts
