/-
# External actions start at most once

Any number of attempts to run effects, each with its own fresh owner, interleave
over one journal; any of them may be lost at any point, and new ones may start at
any time.  The rest of the runtime may write to the journal too, as long as it
writes rows once (`EffectReceipts.effect_receipts_write_once`).

An attempt starts its action only after it has seen its own owner on the row of its
identity.  Rows never change their owner, so two attempts that both started the
action of one identity are the same attempt, and one attempt starts it once.

`Ordinary` attempts are those under a journal that are neither native memory calls,
which adopt the intent of another owner, nor calls with an HTTP recovery service.
-/
import OpenWorkflowAgent.RunEffect

open Transaction EffectJournal RunEffect Procedure

namespace AtMostOnce

/-! ## Attempts over one journal -/

/-- The owners of the attempts that started their action. -/
def starters (s : JournalStore) : List String := s.dispatched.map Prod.snd

/-- An attempt that never adopts and never recovers. -/
structure Ordinary (c : Attempt) : Prop where
  journaled : c.journaled = true
  native : c.nativeMemory = false
  recovery : c.httpRecovery = none

/-- The others write rows once and start no action of an attempt. -/
structure Elsewhere (s s' : JournalStore) : Prop where
  writeOnce : WriteOnce s s'
  dispatched : s'.dispatched = s.dispatched

variable (sv : JournalServices)

/-- The protocol of the attempts: the owners drawn by `uuid4` are fresh. -/
def protocol : Protocol Attempt JournalStore (Except OwaError Json × Option EffectReceipt) where
  body c := (runEffectScoped sv c).start none
  pre c s := c.owner ∉ starters s
  apart c c' := c.owner ≠ c'.owner
  env := Elsewhere

/-- What an attempt sees of the others. -/
structure Relies (c : Attempt) (s s' : JournalStore) : Prop where
  writeOnce : WriteOnce s s'
  fresh : c.owner ∉ starters s → c.owner ∉ starters s'

/-- The row of the attempt's identity carries the given owner. -/
def OwnedRow (c : Attempt) (owner : String) (s : JournalStore) : Prop :=
  ∃ row, s.effects.lookup (sv.key c.identity) = some row ∧ row.owner = owner

/-- What one step of an attempt does: write rows once, or start the action, for the
first time and, if it is ordinary, under its own row. -/
inductive Guarantee (c : Attempt) (s s' : JournalStore) : Prop
  | quiet (h : Elsewhere s s')
  | started (hfresh : c.owner ∉ starters s) (hrow : Ordinary c → OwnedRow sv c c.owner s)
      (h : s' = startAction sv c s)

/-- What an attempt that is done shows: the receipt it was answered is the stored
one; a completed one is its result, up to an observer that raises; the pending
intent of another owner makes it raise; and whatever it returns is the stored
output. -/
structure Finished (c : Attempt) (r : Except OwaError Json × Option EffectReceipt)
    (s : JournalStore) : Prop where
  stored : ∀ receipt, r.2 = some receipt → ∃ row,
    s.effects.lookup (sv.key c.identity) = some row ∧ row.owner = receipt.owner ∧
      (receipt.status ≠ .pending → row = receipt.row)
  completed : ∀ receipt, r.2 = some receipt → receipt.status = .completed →
    r.1 = (c.notified c.identity receipt).map fun _ => receipt.output
  unowned : ∀ receipt, r.2 = some receipt → receipt.status = .pending →
    receipt.owner ≠ c.owner → ∃ e, r.1 = .error e
  returned : ∀ result, r.1 = .ok result → ∃ row,
    s.effects.lookup (sv.key c.identity) = some row ∧ row.status = .completed ∧
      row.payload.output = result

section Discipline

variable {sv} {c : Attempt} {s s' : JournalStore}

theorem Elsewhere.refl (s : JournalStore) : Elsewhere s s := ⟨WriteOnce.refl s, rfl⟩

theorem Elsewhere.of_resolves {k owner : String} (h : Resolves k owner s s') : Elsewhere s s' :=
  ⟨h.writeOnce, h.dispatched⟩

theorem Elsewhere.starters (h : Elsewhere s s') : starters s' = starters s := by
  unfold AtMostOnce.starters
  rw [h.dispatched]

theorem Elsewhere.relies (h : Elsewhere s s') : Relies c s s' :=
  ⟨h.writeOnce, fun hfresh => by rw [h.starters]; exact hfresh⟩

theorem Relies.trans {s₁ s₂ s₃ : JournalStore} (h₁ : Relies c s₁ s₂) (h₂ : Relies c s₂ s₃) :
    Relies c s₁ s₃ :=
  ⟨h₁.writeOnce.trans h₂.writeOnce, fun h => h₂.fresh (h₁.fresh h)⟩

theorem startAction_writeOnce : WriteOnce s (startAction sv c s) :=
  ⟨fun _ row h => ⟨row, h, rfl, rfl, fun _ => rfl⟩, fun _ _ h => h⟩

theorem Guarantee.writeOnce (h : Guarantee sv c s s') : WriteOnce s s' := by
  cases h with
  | quiet he => exact he.writeOnce
  | started _ _ hs =>
    subst hs
    exact startAction_writeOnce

/-- What one attempt does, every attempt with another owner can rely on. -/
theorem Guarantee.relies {c' : Attempt} (hne : c.owner ≠ c'.owner) (h : Guarantee sv c s s') :
    Relies c' s s' := by
  refine ⟨h.writeOnce, fun hfresh => ?_⟩
  cases h with
  | quiet he => exact he.relies.fresh hfresh
  | started _ _ hs =>
    subst hs
    exact List.not_mem_cons_of_ne_of_not_mem (fun heq => hne heq.symm) hfresh

theorem Guarantee.nodup (h : Guarantee sv c s s') (hnodup : (starters s).Nodup) :
    (starters s').Nodup := by
  cases h with
  | quiet he =>
    rw [he.starters]
    exact hnodup
  | started hfresh _ hs =>
    subst hs
    exact List.nodup_cons.mpr ⟨hfresh, hnodup⟩

theorem OwnedRow.mono {owner : String} (h : OwnedRow sv c owner s) (hw : WriteOnce s s') :
    OwnedRow sv c owner s' := by
  obtain ⟨row, hrow, howner⟩ := h
  obtain ⟨row', hrow', howner', -, -⟩ := hw.effects _ _ hrow
  exact ⟨row', hrow', howner'.trans howner⟩

theorem Finished.stable {r : Except OwaError Json × Option EffectReceipt}
    (h : Finished sv c r s) (hw : WriteOnce s s') : Finished sv c r s' := by
  refine ⟨fun receipt hr => ?_, h.completed, h.unowned, fun result hr => ?_⟩
  · obtain ⟨row, hrow, howner, hkept⟩ := h.stored receipt hr
    obtain ⟨row', hrow', howner', -, hsame⟩ := hw.effects _ _ hrow
    refine ⟨row', hrow', howner'.trans howner, fun hdone => ?_⟩
    have hrow_eq := hkept hdone
    rw [hsame (by rw [hrow_eq]; exact hdone), hrow_eq]
  · obtain ⟨row, hrow, hdone, hout⟩ := h.returned result hr
    obtain ⟨row', hrow', -, -, hsame⟩ := hw.effects _ _ hrow
    rw [hsame (by rw [hdone]; decide)] at hrow'
    exact ⟨row, hrow', hdone, hout⟩

end Discipline

/-! ## One attempt alone -/

section Attempts

variable {sv} {c : Attempt} {s : JournalStore}

/-- What an attempt has to show when it is done. -/
def Shows (sv : JournalServices) (c : Attempt) (r : Except OwaError Json)
    (m : Option EffectReceipt) (s : JournalStore) : Prop :=
  Ordinary c → Finished sv c (r, m) s

/-- A part of an attempt that does what it promises. -/
def Behaves {α : Type} (sv : JournalServices) (c : Attempt)
    (post : Except OwaError α → Option EffectReceipt → JournalStore → Prop) (x : Run α)
    (m : Option EffectReceipt) (s : JournalStore) : Prop :=
  Procedure.Holds (fun s => (starters s).Nodup) (Relies c) (Guarantee sv c) post x m s

/-- Before its action an attempt may do all that resolves rows. -/
theorem allows_fresh (k owner : String) :
    Allows (fun s => (starters s).Nodup) (fun s => c.owner ∉ starters s) (Relies c)
      (Guarantee sv c) (Resolves k owner) where
  writeOnce _ _ hr := hr.writeOnce
  stable _ _ hfresh hr _ := hr.fresh hfresh
  refl s := (Inserts.refl s).resolves
  steps _ _ hfresh _ hres :=
    ⟨.quiet (.of_resolves hres), (Elsewhere.of_resolves hres).relies.fresh hfresh⟩

variable {first : String}

/-- After the action the row of the identity keeps its owner, whoever resolves it. -/
theorem allows_owned (k owner : String) {P : Prop} :
    Allows (fun s => (starters s).Nodup) (fun s => P → OwnedRow sv c first s) (Relies c)
      (Guarantee sv c) (Resolves k owner) where
  writeOnce _ _ hr := hr.writeOnce
  stable _ _ hK hr _ := fun hP => (hK hP).mono hr.writeOnce
  refl s := (Inserts.refl s).resolves
  steps _ _ hK _ hres := ⟨.quiet (.of_resolves hres), fun hP => (hK hP).mono hres.writeOnce⟩

/-- An attempt that raises before the journal answered has nothing to show. -/
theorem shows_error_none (e : OwaError) : Shows sv c (.error e) none s := fun _ =>
  ⟨by simp, by simp, by simp, by simp⟩

variable {receipt : EffectReceipt} {result : Json}

theorem effectResult_eq_ok (h : effectResult receipt = .ok result)
    (hdone : receipt.status ≠ .pending) :
    receipt.status = .completed ∧ receipt.output = result := by
  unfold effectResult at h
  split at h
  · cases h
  · next hnone =>
      refine ⟨?_, by simpa using h⟩
      cases hst : receipt.status with
      | pending => exact absurd hst hdone
      | completed => rfl
      | faulted => exact absurd hnone (receipt.error_of_faulted hst)

theorem effectResult_of_completed (h : receipt.status = .completed) :
    effectResult receipt = .ok receipt.output := by
  unfold effectResult
  rw [receipt.error_of_completed h]

variable {m : Option EffectReceipt}

theorem settle_behaves {identity : EffectIdentity}
    {post : Except OwaError Json → Option EffectReceipt → JournalStore → Prop}
    (h : post ((c.notified identity receipt).bind fun _ => effectResult receipt) m s) :
    Behaves sv c post (settle c identity receipt) m s := by
  unfold Behaves settle notify
  cases hn : c.notified identity receipt with
  | error =>
    rw [hn] at h
    exact h
  | ok =>
    rw [hn] at h
    cases hr : effectResult receipt with
    | error =>
      rw [hr] at h
      exact h
    | ok =>
      rw [hr] at h
      exact h

/-- What is returned by reporting the stored, resolved receipt is the stored output. -/
theorem returned_of_settle (hrow : s.effects.lookup (sv.key c.identity) = some receipt.row)
    (hdone : receipt.status ≠ .pending)
    (h : ((c.notified c.identity receipt).bind fun _ => effectResult receipt) = .ok result) :
    ∃ row, s.effects.lookup (sv.key c.identity) = some row ∧ row.status = .completed ∧
      row.payload.output = result := by
  obtain ⟨u, -, hresult⟩ := except_bind_eq_ok.mp h
  obtain ⟨hst, hout⟩ := effectResult_eq_ok hresult hdone
  exact ⟨receipt.row, hrow, hst, hout⟩

theorem settle_shows (hrow : Ordinary c → s.effects.lookup (sv.key c.identity) = some receipt.row)
    (hdone : receipt.status ≠ .pending) :
    Behaves sv c (Shows sv c) (settle c c.identity receipt) (some receipt) s := by
  refine settle_behaves fun hord => ⟨?_, ?_, ?_, ?_⟩
  · rintro _ ⟨⟩
    exact ⟨receipt.row, hrow hord, rfl, fun _ => rfl⟩
  · rintro _ ⟨⟩ hst
    rw [effectResult_of_completed hst]
    cases c.notified c.identity receipt with
    | error => rfl
    | ok => rfl
  · rintro _ ⟨⟩ hpending
    exact absurd hpending hdone
  · exact fun result hr => returned_of_settle (hrow hord) hdone hr

/-! ### The outcome of the action -/

/-- The answer of a completion: the row of the identity is resolved and still has
its owner. -/
def Completed (sv : JournalServices) (c : Attempt) (first : String) (r : Except OwaError EffectReceipt)
    (s : JournalStore) : Prop :=
  (Ordinary c → OwnedRow sv c first s) ∧ ∀ receipt, r = .ok receipt →
    s.effects.lookup (sv.key c.identity) = some receipt.row ∧ receipt.status ≠ .pending

theorem completed_error {e : OwaError} (h : Ordinary c → OwnedRow sv c first s) :
    Completed sv c first (.error e) s :=
  ⟨h, by simp⟩

variable {owner : String}

section

variable (hK : Ordinary c → OwnedRow sv c first s)

include hK

theorem transaction_completed {t : Transaction OwaError JournalStore EffectReceipt} (hres : ∀ s₁ receipt s₂, t.run s₁ = .ok (receipt, s₂) →
      Resolves (sv.key c.identity) owner s₁ s₂)
    (hans : ∀ s₁ receipt s₂, t.run s₁ = .ok (receipt, s₂) →
      s₂.effects.lookup (sv.key c.identity) = some receipt.row ∧ receipt.status ≠ .pending) :
    Behaves sv c (fun r m' s' => m' = m ∧ Completed sv c first r s') (Procedure.transaction t)
      m s := by
  refine (allows_owned (sv.key c.identity) owner).holds_transaction hK (fun s₁ a s₂ _ hrun => hres s₁ a s₂ hrun)
    (fun e s₁ hK₁ => ⟨rfl, completed_error hK₁⟩) fun s₁ a s₂ _ hrun hK₂ => ⟨rfl, hK₂, ?_⟩
  rintro _ ⟨⟩
  exact hans s₁ a s₂ hrun

theorem finishByProfile_completed {o : Outcome} {isProtected : Bool} :
    Behaves sv c (fun r m' s' => m' = m ∧ Completed sv c first r s')
      (finishByProfile sv c owner o isProtected) m s := by
  unfold finishByProfile
  split
  · unfold finishProtected
    refine (silent_orRaiseError _).holds_bind
      (fun _ => ⟨rfl, completed_error hK⟩) fun child => ?_
    exact transaction_completed hK (fun _ _ _ => finishOwned_resolves)
      fun _ _ _ => finishOwned_answer
  split
  · unfold finishSourceScript
    refine (allows_owned (sv.key c.identity) owner).holds_getReceipt_bind hK
      (fun _ _ hK₁ => ⟨rfl, completed_error hK₁⟩) fun s₁ policy _ hK₁ => ?_
    refine (silent_raiseIf _ _).holds_bind (fun _ => ⟨rfl, completed_error hK₁⟩)
      fun _ => ?_
    exact transaction_completed hK₁ (fun _ _ _ => finishOwned_resolves)
      fun _ _ _ => finishOwned_answer
  split
  · exact transaction_completed hK (fun _ _ _ => finishGrpc_resolves)
      fun _ _ _ => finishGrpc_answer
  · unfold finishWithChild
    refine (silent_orRaiseError _).holds_bind
      (fun _ => ⟨rfl, completed_error hK⟩) fun child => ?_
    refine (allows_owned (sv.key c.identity) owner).finish_holds (fun _ _ hres => hres) hK
      (fun _ _ hK₁ => ⟨rfl, completed_error hK₁⟩) fun receipt s₁ hK₁ hrow hdone => ⟨rfl, hK₁, ?_⟩
    rintro _ ⟨⟩
    exact ⟨hrow, hdone⟩

theorem storeEffectOutcome_completed {o : Outcome} :
    Behaves sv c (fun r m' s' => m' = m ∧ Completed sv c first r s')
      (storeEffectOutcome sv c owner o) m s := by
  unfold Behaves storeEffectOutcome
  rw [holds_tryCatch]
  refine (silent_orRaiseError _).holds_bind (fun _ => ⟨rfl, completed_error hK⟩)
    fun isProtected => ?_
  refine holds_mono (fun r m' s' hr => ?_) (finishByProfile_completed hK)
  cases r with
  | ok => exact hr
  | error => exact ⟨hr.1, completed_error hr.2.1⟩

end

/-! ### The action -/

/-- The journal answered the pending intent that the action runs under. -/
structure Running (c : Attempt) (receipt : EffectReceipt) : Prop where
  pending : receipt.status = .pending
  own : Ordinary c → receipt.owner = c.owner

section

variable (hrun : Running c receipt)

include hrun

/-- An attempt whose action ran shows its row, and what it returns is stored. -/
theorem shows_of_running {r : Except OwaError Json} (hK : Ordinary c → OwnedRow sv c receipt.owner s)
    (hret : Ordinary c → ∀ result, r = .ok result → ∃ row,
      s.effects.lookup (sv.key c.identity) = some row ∧ row.status = .completed ∧
        row.payload.output = result) : Shows sv c r (some receipt) s := by
  refine fun hord => ⟨?_, ?_, ?_, hret hord⟩
  · rintro _ ⟨⟩
    obtain ⟨row, hrow, howner⟩ := hK hord
    exact ⟨row, hrow, howner, fun hdone => absurd hrun.pending hdone⟩
  · rintro _ ⟨⟩ hst
    rw [hrun.pending] at hst
    cases hst
  · rintro _ ⟨⟩ _ hne
    exact absurd (hrun.own hord) hne

theorem shows_error_running {e : OwaError} (hK : Ordinary c → OwnedRow sv c receipt.owner s) :
    Shows sv c (.error e) (some receipt) s :=
  shows_of_running hrun hK fun _ _ h => by cases h

theorem completeAction_shows (hK : Ordinary c → OwnedRow sv c receipt.owner s) :
    Behaves sv c (Shows sv c) (completeAction sv c owner result) (some receipt) s := by
  unfold Behaves completeAction checkpoint
  refine (silent_raiseIf _ _).holds_bind (fun _ => shows_error_running hrun hK)
    fun _ => ?_
  rw [holds_bind]
  refine holds_mono ?_ (storeEffectOutcome_completed hK)
  rintro r _ s' ⟨rfl, hK', hans⟩
  cases r with
  | error => exact shows_error_running hrun hK'
  | ok stored =>
    obtain ⟨hrow, hdone⟩ := hans stored rfl
    exact settle_behaves
      (shows_of_running hrun hK' fun _ _ hr => returned_of_settle hrow hdone hr)

theorem faultAction_shows {e : ActionError} (hK : Ordinary c → OwnedRow sv c receipt.owner s) :
    Behaves sv c (Shows sv c) (faultAction sv c owner e) (some receipt) s := by
  unfold Behaves faultAction checkpoint notify
  refine (silent_raiseIf _ _).holds_bind (fun _ => shows_error_running hrun hK)
    fun _ => ?_
  refine (silent_raiseIf _ _).holds_bind (fun _ => shows_error_running hrun hK)
    fun _ => ?_
  rw [holds_bind]
  refine holds_mono ?_ (storeEffectOutcome_completed hK)
  rintro r _ s' ⟨rfl, hK', -⟩
  cases r with
  | error => exact shows_error_running hrun hK'
  | ok =>
    exact (silent_orRaiseError _).holds_bind
      (fun _ => shows_error_running hrun hK') fun _ => shows_error_running hrun hK'

theorem failAction_shows {failure : DispatchFailure}
    (hK : Ordinary c → OwnedRow sv c receipt.owner s) :
    Behaves sv c (Shows sv c) (failAction sv c owner failure) (some receipt) s := by
  cases failure with
  | cancelled expired =>
    cases expired with
    | true => exact shows_error_running hrun hK
    | false => exact shows_error_running hrun hK
  | uncertain => exact shows_error_running hrun hK
  | interrupted => exact shows_error_running hrun hK
  | failed => exact faultAction_shows hrun hK
  | unexpected => exact faultAction_shows hrun hK

end

/-- Starting the action: the attempt did not start it before, and an ordinary one
has its own row. -/
theorem startAction_behaves {α : Type} {f : Unit → Run α}
    {post : Except OwaError α → Option EffectReceipt → JournalStore → Prop} (first : String)
    (hfresh : c.owner ∉ starters s) (hK : Ordinary c → OwnedRow sv c first s)
    (hown : Ordinary c → first = c.owner)
    (hf : ∀ s₁, (Ordinary c → OwnedRow sv c first s₁) → Behaves sv c post (f ()) m s₁) :
    Behaves sv c post (Procedure.transaction (write (startAction sv c)) >>= f) m s := by
  unfold Behaves
  rw [holds_bind, holds_transaction]
  intro s₁ hr _
  have hrun : (write (startAction sv c) : Transaction OwaError JournalStore Unit).run s₁ =
      .ok ((), startAction sv c s₁) := write_eq_ok.mpr rfl
  rw [after_of_ok hrun, answer_eq_ok.mpr ⟨_, hrun⟩]
  have hK₁ : Ordinary c → OwnedRow sv c first s₁ := fun hord => (hK hord).mono hr.writeOnce
  refine ⟨.started (hr.fresh hfresh) (fun hord => ?_) rfl, hf _ fun hord => ?_⟩
  · rw [← hown hord]
    exact hK₁ hord
  · exact (hK₁ hord).mono startAction_writeOnce

theorem runAction_shows (hfresh : c.owner ∉ starters s) (hrun : Running c receipt)
    (hK : Ordinary c → OwnedRow sv c receipt.owner s) :
    Behaves sv c (Shows sv c) (runAction sv c owner) (some receipt) s := by
  unfold runAction
  refine startAction_behaves receipt.owner hfresh hK hrun.own fun s₁ hK₁ => ?_
  cases c.outcome with
  | ok => exact completeAction_shows hrun hK₁
  | error => exact failAction_shows hrun hK₁

/-! ### The intent -/

theorem silent_notifyAdmitted {admission : Option (EffectIdentity × EffectReceipt)} :
    Procedure.Silent (notifyAdmitted c admission) := by
  cases admission with
  | none => exact silent_pure ()
  | some => exact silent_orRaiseError _

theorem silent_admitOpenapi : Procedure.Silent (admitOpenapi c) := by
  unfold admitOpenapi
  split
  · exact (silent_raiseIf _ _).bind fun _ => (silent_raiseIf _ _).bind fun _ =>
      (silent_orRaiseError _).bind fun _ => (silent_raiseIf _ _).bind fun _ =>
        silent_notifyAdmitted
  · exact silent_pure ()

theorem silent_authorizeCall : Procedure.Silent (authorizeCall c) :=
  (silent_raiseIf _ _).bind fun _ => silent_orRaiseError _

theorem silent_notifyAudited : Procedure.Silent (notifyAudited c) :=
  (silent_orRaiseError _).bind fun _ => silent_notifyAdmitted

/-- An attempt that is still before its action, with no answer of the journal. -/
def Before (c : Attempt) {α : Type} (_ : Except OwaError α) (m : Option EffectReceipt)
    (s : JournalStore) : Prop :=
  m = none ∧ c.owner ∉ starters s

theorem checkExpired_before (hfresh : c.owner ∉ starters s) :
    Behaves sv c (Before c) (checkExpired sv c) none s := by
  unfold checkExpired
  split
  · refine (allows_fresh (sv.key c.identity) c.owner).holds_getReceipt_bind hfresh
      (fun _ _ hfresh₁ => ⟨rfl, hfresh₁⟩) fun s₁ known _ hfresh₁ => ?_
    exact silent_raiseIf _ _ _ _ _ _ _ _ fun _ => ⟨rfl, hfresh₁⟩
  · exact ⟨rfl, hfresh⟩

theorem admitA2a_before (hfresh : c.owner ∉ starters s) :
    Behaves sv c (Before c) (admitA2a sv c) none s := by
  unfold admitA2a
  split
  · refine (silent_raiseIf _ _).holds_bind (fun _ => ⟨rfl, hfresh⟩) fun _ => ?_
    rw [holds_bind]
    refine holds_mono ?_ (checkExpired_before hfresh)
    rintro r _ s' ⟨rfl, hfresh'⟩
    cases r with
    | error => exact ⟨rfl, hfresh'⟩
    | ok =>
      refine (silent_raiseIf _ _).holds_bind (fun _ => ⟨rfl, hfresh'⟩) fun _ => ?_
      refine (silent_orRaiseError _).holds_bind (fun _ => ⟨rfl, hfresh'⟩) fun _ => ?_
      exact silent_notifyAdmitted _ _ _ _ _ _ fun _ => ⟨rfl, hfresh'⟩
  · exact ⟨rfl, hfresh⟩

/-- The answer of the journal: for an ordinary attempt it is the row of the identity,
and the call was not admitted for recovery. -/
def Answered (sv : JournalServices) (c : Attempt) (r : Except OwaError (EffectReceipt × Bool))
    (m : Option EffectReceipt) (s : JournalStore) : Prop :=
  Before c r m s ∧ ∀ pair, r = .ok pair → Ordinary c →
    s.effects.lookup (sv.key c.identity) = some pair.1.row ∧ pair.2 = false

theorem answered_error {e : OwaError} (hfresh : c.owner ∉ starters s) :
    Answered sv c (.error e) none s :=
  ⟨⟨rfl, hfresh⟩, fun _ h => by cases h⟩

theorem receiptOf_answered {pair : Option (EffectReceipt × EffectReceipt)}
    (hfresh : c.owner ∉ starters s) (hord : Ordinary c → pair = none) :
    Behaves sv c (Answered sv c) (receiptOf sv c pair) none s := by
  cases pair with
  | some =>
    refine (silent_orRaiseError _).holds_bind (fun _ => answered_error hfresh)
      fun _ => ⟨⟨rfl, hfresh⟩, fun _ _ ho => (by cases hord ho)⟩
  | none =>
    refine (silent_orRaiseError _).holds_bind (fun _ => answered_error hfresh)
      fun digest => ?_
    rw [holds_bind]
    refine (allows_fresh (sv.key c.identity) c.owner).begin_holds
      (fun _ _ hins => hins.resolves) hfresh (fun _ _ hfresh₁ => answered_error hfresh₁)
      fun receipt s₁ hfresh₁ hrow => ⟨⟨rfl, hfresh₁⟩, ?_⟩
    rintro _ ⟨⟩ _
    exact ⟨hrow, rfl⟩

theorem admitOrBegin_answered (hfresh : c.owner ∉ starters s) :
    Behaves sv c (Answered sv c) (admitOrBegin sv c) none s := by
  unfold Behaves admitOrBegin
  rw [holds_tryCatch, holds_orRaiseError_bind]
  refine ⟨fun e _ => answered_error hfresh, fun pair hpair => ?_⟩
  have hord : Ordinary c → pair = none := by
    intro hord
    unfold admitted at hpair
    rw [hord.recovery] at hpair
    cases hpair
    rfl
  refine holds_mono (fun r m s' hr => ?_) (receiptOf_answered hfresh hord)
  cases r with
  | ok => exact hr
  | error =>
    obtain ⟨⟨rfl, hfresh'⟩, -⟩ := hr
    exact answered_error hfresh'

/-! ### The whole attempt -/

/-- The pending intent of another owner: an ordinary attempt raises. -/
theorem resolveForeign_behaves {wasAdmitted : Bool} {f : Option Json → Run Json}
    {post : Except OwaError Json → Option EffectReceipt → JournalStore → Prop}
    (herr : ∀ e, post (.error e) m s) (hf : ¬ Ordinary c → ∀ known, Behaves sv c post (f known) m s) :
    
    Behaves sv c post (resolveForeign c wasAdmitted >>= f) m s := by
  by_cases hord : Ordinary c
  · have hnone : recovered c wasAdmitted = .ok none := by
      unfold recovered
      rw [hord.recovery]
    unfold Behaves resolveForeign
    rw [hnone, hord.native]
    exact herr _
  · have hsilent : Procedure.Silent (resolveForeign c wasAdmitted) := by
      unfold resolveForeign
      refine (silent_orRaiseError _).bind fun known => ?_
      cases known with
      | none => exact (silent_raiseIf _ _).bind fun _ => silent_pure _
      | some pair =>
        refine (silent_orRaiseError _).bind fun _ => ?_
        have hsettle : Procedure.Silent (settle c c.identity pair.1) :=
          (silent_orRaiseError _).bind fun _ => silent_orRaiseError _
        exact hsettle.bind fun _ => silent_pure _
    exact hsilent.holds_bind herr (hf hord)

section

variable (hfresh : c.owner ∉ starters s)

include hfresh

theorem runPending_shows {wasAdmitted : Bool} (hpending : receipt.status = .pending)
    (hrow : Ordinary c → s.effects.lookup (sv.key c.identity) = some receipt.row) :
    Behaves sv c (Shows sv c) (runPending sv c receipt wasAdmitted) (some receipt) s := by
  have hK : Ordinary c → OwnedRow sv c receipt.owner s := fun hord =>
    ⟨receipt.row, hrow hord, rfl⟩
  -- an error is shown by the stored pending row alone
  have herr : ∀ e, Shows sv c (.error e) (some receipt) s := by
    refine fun e hord => ⟨?_, ?_, fun _ _ _ _ => ⟨e, rfl⟩, by simp⟩
    · rintro _ ⟨⟩
      exact ⟨receipt.row, hrow hord, rfl, fun _ => rfl⟩
    · rintro _ ⟨⟩ hst
      rw [hpending] at hst
      cases hst
  unfold runPending
  refine silent_notifyAudited.holds_bind herr fun _ => ?_
  split
  · refine resolveForeign_behaves herr fun hord known => ?_
    have hrun : Running c receipt := ⟨hpending, fun h => absurd h hord⟩
    cases known with
    | some => exact fun h => absurd h hord
    | none => exact runAction_shows hfresh hrun hK
  · next howner =>
      exact runAction_shows hfresh ⟨hpending, fun _ => not_not.mp howner⟩ hK

theorem runFresh_shows : Behaves sv c (Shows sv c) (runFresh sv c) none s := by
  unfold runFresh
  refine silent_authorizeCall.holds_bind (fun _ => shows_error_none _) fun _ => ?_
  rw [holds_bind]
  refine holds_mono ?_ (admitOrBegin_answered hfresh)
  rintro r _ s' ⟨⟨rfl, hfresh'⟩, hans⟩
  cases r with
  | error e => exact shows_error_none e
  | ok pair =>
    have hrow : Ordinary c → s'.effects.lookup (sv.key c.identity) = some pair.1.row :=
      fun hord => (hans pair rfl hord).1
    show Behaves sv c (Shows sv c) (afterReceipt sv c pair.1 pair.2) (some pair.1) s'
    unfold afterReceipt
    split
    · next hdone => exact settle_shows hrow hdone
    · next hpending => exact runPending_shows hfresh' (not_not.mp hpending) hrow

theorem reconcile_shows : Behaves sv c (Shows sv c) (reconcile sv c) none s := by
  unfold reconcile
  refine (allows_fresh (sv.key c.identity) c.owner).holds_getReceipt_bind hfresh
    (fun _ _ _ => shows_error_none _) fun s₁ found hread _ => ?_
  simp only [holds_orRaise_bind, holds_raiseIf_bind,
    holds_orRaiseError_bind]
  refine ⟨fun _ => shows_error_none _, ?_⟩
  rintro known rfl
  refine ⟨fun _ => shows_error_none _, fun hdone => ⟨fun _ _ => shows_error_none _,
    fun digest _ => ⟨fun _ => shows_error_none _, fun _ => ?_⟩⟩⟩
  rw [holds_bind, holds_set]
  exact settle_shows (fun _ => readReceipt_eq_some hread) hdone

/-- **Each attempt alone.**  It starts its action at most once, under its own row,
and shows what it has to. -/
theorem runEffectScoped_shows : Behaves sv c (Shows sv c) (runEffectScoped sv c) none s := by
  unfold runEffectScoped
  split
  · next hno =>
      have hord : ¬ Ordinary c := fun h => by
        rw [h.journaled] at hno
        cases hno
      unfold runUnjournaled
      refine (silent_raiseIf _ _).holds_bind (fun _ => shows_error_none _) fun _ => ?_
      refine startAction_behaves c.owner hfresh (fun h => absurd h hord) (fun _ => rfl)
        fun s₁ _ => ?_
      split
      · exact fun h => absurd h hord
      · exact fun h => absurd h hord
      · exact fun h => absurd h hord
  · unfold runJournaled
    refine silent_admitOpenapi.holds_bind (fun _ => shows_error_none _) fun _ => ?_
    rw [holds_bind]
    refine holds_mono ?_ (admitA2a_before hfresh)
    rintro r _ s' ⟨rfl, hfresh'⟩
    cases r with
    | error e => exact shows_error_none e
    | ok =>
      show Behaves sv c (Shows sv c)
        (if c.reconcileExpired = true then reconcile sv c else runFresh sv c) none s'
      split
      · exact reconcile_shows hfresh'
      · exact runFresh_shows hfresh'

end

end Attempts

/-! ## Every interleaving -/

theorem protocol_sound : (protocol sv).Sound (fun s => (starters s).Nodup) Relies (Guarantee sv)
    (fun c r s => Ordinary c → Finished sv c r s) where
  rely_refl _ s := (Elsewhere.refl s).relies
  rely_trans _ _ _ _ h₁ h₂ := h₁.trans h₂
  apart_symm _ _ h := fun heq => h heq.symm
  guar_rely _ _ _ _ hne _ hg := hg.relies hne
  env_rely _ _ _ _ he := he.relies
  guar_inv _ _ _ hnodup hg := hg.nodup hnodup
  env_inv s s' hnodup he := by
    rw [he.starters]
    exact hnodup
  post_stable _ _ _ _ h hr _ := fun hord => (h hord).stable hr.writeOnce
  body_holds _ _ _ hfresh := runEffectScoped_shows hfresh

/-- Every started action is the one of a started attempt; that of an ordinary
attempt stands under its own row. -/
structure Accounted (attempts : List Attempt) (s : JournalStore) : Prop where
  owners_nodup : (attempts.map Attempt.owner).Nodup
  action : ∀ entry ∈ s.dispatched, ∃ c ∈ attempts, entry = (sv.key c.identity, c.owner) ∧
    (Ordinary c → OwnedRow sv c c.owner s)

section Accounted

variable {sv} {attempts : List Attempt} {s s' : JournalStore}

section

variable (h : Accounted sv attempts s)

include h

theorem Accounted.of_writeOnce (hw : WriteOnce s s') (hd : s'.dispatched = s.dispatched) :
    Accounted sv attempts s' := by
  refine ⟨h.owners_nodup, fun entry hentry => ?_⟩
  rw [hd] at hentry
  obtain ⟨c, hc, heq, hrow⟩ := h.action entry hentry
  exact ⟨c, hc, heq, fun hord => (hrow hord).mono hw⟩

theorem Accounted.of_guarantee {c : Attempt} (hc : c ∈ attempts) (hg : Guarantee sv c s s') :
    Accounted sv attempts s' := by
  cases hg with
  | quiet he => exact h.of_writeOnce he.writeOnce he.dispatched
  | started _ hrow hs =>
    subst hs
    refine ⟨h.owners_nodup, fun entry hentry => ?_⟩
    rcases List.mem_cons.mp hentry with rfl | hold
    · exact ⟨c, hc, rfl, fun hord => (hrow hord).mono startAction_writeOnce⟩
    · obtain ⟨c', hc', heq, hrow'⟩ := h.action entry hold
      exact ⟨c', hc', heq, fun hord => (hrow' hord).mono startAction_writeOnce⟩

theorem Accounted.eq_of_owner {c c' : Attempt} (hc : c ∈ attempts) (hc' : c' ∈ attempts)
    (howner : c.owner = c'.owner) : c = c' :=
  List.inj_on_of_nodup_map h.owners_nodup hc hc' howner

/-- Two started actions of one identity, all of whose attempts are ordinary, are the
same entry. -/
theorem Accounted.eq_of_key {k : String} (hord : ∀ c ∈ attempts, sv.key c.identity = k → Ordinary c)
    {x y : String × String} (hx : x ∈ s.dispatched) (hy : y ∈ s.dispatched) (hkx : x.1 = k)
    (hky : y.1 = k) : x = y := by
  obtain ⟨c, hc, rfl, hrow⟩ := h.action x hx
  obtain ⟨c', hc', rfl, hrow'⟩ := h.action y hy
  obtain ⟨row, hlook, howner⟩ := hrow (hord c hc hkx)
  obtain ⟨row', hlook', howner'⟩ := hrow' (hord c' hc' hky)
  -- both owners stand on the one row of the identity
  have hkey : sv.key c.identity = sv.key c'.identity := hkx.trans hky.symm
  rw [hkey, hlook', Option.some.injEq] at hlook
  rw [Prod.mk.injEq]
  exact ⟨hkey, by rw [← howner, ← howner', hlook]⟩

end

end Accounted

/-- The actions of the identities of key `k` that were started. -/
def startsOf (k : String) (s : JournalStore) : List (String × String) :=
  s.dispatched.filter fun entry => entry.1 = k

/-- An ordinary attempt at a tool call that answers 7. -/
def sampleAttempt (owner : String) : Attempt where
  journaled := true
  call := "mcp"
  identity := EffectIdentity.firstCall.withOperation "call:mcp" (by decide)
  requestDigest := .ok "0123456789abcdef0123456789abcdef0123456789abcdef0123456789abcdef"
  operationId := "i:/do/0"
  lease := none
  owner := owner
  taskReference := .str "/do/0"
  taskName := "call"
  reconcileExpired := false
  mapping := true
  agentCard := false
  openapi := ⟨false, false, .ok none⟩
  a2a := ⟨false, false, .ok none⟩
  recovery := none
  nativeMemory := false
  memoryDispatched := false
  authorize := .ok ()
  observe _ _ := .ok ()
  auditedIntent := .ok none
  dispatch := .ok (.int 7)
  interrupted := false
  protectedBusiness := .ok false
  sourceScript := false
  childDependency := .ok none

def sampleStore : JournalStore := ⟨⟨⟨0, ∅⟩, ∅, ∅, ∅, []⟩, ∅, ∅, ∅, []⟩

end AtMostOnce
