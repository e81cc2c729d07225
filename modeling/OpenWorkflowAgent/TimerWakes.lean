/-
# One immutable wake per timer

The operations of `timers.py` on one database, from any number of processes and in any
order of their transactions, next to every other use of the journal.  `Change` says
once what a committed operation does to the tables; `Books` is what the tables then
always say of one another: every timer has its arming receipt, it has a wake receipt
exactly when it left `pending` through `wake`, and the index of identities lists these
receipts and no other timer identity.

`Reliable` names what is relied on: identities have different keys (they are SHA-256
digests of the identity), and `get` makes no further check of the two kinds of timer
receipts.  `fp` is the fingerprint of each invocation's definition: a running workflow
arms its timers under the fingerprint it was started with.
-/
import OpenWorkflowAgent.Timers

open Transaction EffectJournal

namespace Timers

def IsTimer (identity : EffectIdentity) : Prop :=
  identity.operation = armOperation ∨ identity.operation = wakeOperation

/-- What the timers rely on. -/
structure Reliable (sv : TimerServices) : Prop where
  key_injective : Function.Injective sv.journal.key
  verifies : ∀ s identity receipt, IsTimer identity → receipt.externalOutcome = none →
    sv.journal.verify s identity receipt = true

/-! ## Identities -/

theorem armOperation_ne_wakeOperation : armOperation ≠ wakeOperation := by decide

theorem isTimer_wake (identity : EffectIdentity) : IsTimer identity.wake := Or.inr rfl

section Wakes

variable {a b identity : EffectIdentity} {row row' : TimerRow} {known : TimerRegistration}
  {reason : WakeReason} {resumeInput : Json} {w : TimerWake} {receipt : EffectReceipt}
  {fp : String → String} {key owner : String}

theorem eq_of_wake_eq (hop : a.operation = b.operation) (h : a.wake = b.wake) : a = b := by
  cases a
  cases b
  simp only [EffectIdentity.wake, EffectIdentity.mk.injEq] at h hop ⊢
  exact ⟨h.1, h.2.1, h.2.2.1, h.2.2.2.1, hop⟩

theorem ne_wake_of_arm (ha : a.operation = armOperation) :
    a ≠ b.wake := by
  rintro rfl
  exact armOperation_ne_wakeOperation ha.symm

/-! ## What an operation commits -/

variable {sv : TimerServices} {s s' : TimerStore}

theorem onJournal_eq_ok {α : Type} {t : Transaction OwaError JournalStore α} {a : α} :
    (onJournal t).run s = .ok (a, s') ↔
      ∃ x, t.run s.journal = .ok (a, x) ∧ { s with journal := x } = s' :=
  zoom_eq_ok

variable {lease : Option ExecutionLease} {registration : TimerRegistration}

theorem ownedBy_eq_ok {α : Type} {body : Transaction OwaError TimerStore α} {r : α × TimerStore} :
    (ownedBy identity lease body).run s = .ok r ↔
      (∀ l, lease = some l → l.invocationId = identity.invocationId ∧
        l.workflowFingerprint = identity.workflowFingerprint ∧
        Ownership.writeGuard l s.journal.runtime.owners = true) ∧ body.run s = .ok r :=
  Ownership.ownedWriteTransaction_eq_ok

theorem get_eq_ok {found : Option TimerRegistration} :
    (get sv identity).run s = .ok (found, s') ↔ readTimer sv identity s = .ok found ∧ s = s' := by
  simp only [get, run_eq_ok]

theorem onJournal_getReceipt_eq_ok {found : Option EffectReceipt} :
    (onJournal (getReceipt sv.journal identity)).run s = .ok (found, s') ↔
      readReceipt sv.journal identity s.journal = .ok found ∧ s = s' := by
  rw [onJournal_eq_ok]
  constructor
  · rintro ⟨x, hget, rfl⟩
    obtain ⟨hread, rfl⟩ := getReceipt_eq_ok.mp hget
    exact ⟨hread, rfl⟩
  · rintro ⟨hread, rfl⟩
    exact ⟨_, getReceipt_eq_ok.mpr ⟨hread, rfl⟩, rfl⟩

theorem readTimer_eq_none (h : readTimer sv identity s = .ok none) :
    s.timers.lookup (sv.journal.key identity) = none := by
  unfold readTimer at h
  split at h
  · assumption
  · split at h <;> cases h

theorem readTimer_eq_some (h : readTimer sv identity s = .ok (some registration)) :
    ∃ row, s.timers.lookup (sv.journal.key identity) = some row ∧
      decodeTimer sv s identity row = .ok registration := by
  unfold readTimer at h
  split at h
  · cases h
  · next row hrow =>
      split at h
      · next r hr =>
          cases h
          exact ⟨row, hrow, hr⟩
      · cases h

/-- The evidence that `get` finds for a row. -/
structure Evidence (sv : TimerServices) (s : TimerStore) (identity : EffectIdentity)
    (row : TimerRow) (a : Arming) (receipt : EffectReceipt) : Prop where
  read : readReceipt sv.journal identity s.journal = .ok (some receipt)
  arming : Arming.ofJson row.payload.arming = some a
  agrees : Agrees identity row a (some receipt)
  digest : effectRequestDigest sv.digest identity.operation (a.request row.payload.source) =
    .ok receipt.requestDigest
  source : row.payload.source.valid = true

def registrationOf (identity : EffectIdentity) (row : TimerRow) (a : Arming)
    (receipt : EffectReceipt) : TimerRegistration :=
  ⟨identity, a.armedAt, a.dueAt, a.duration, receipt, row.payload.source.canonical, a.wakeAt,
    a.deadlineAt⟩

theorem decodeTimer_eq_ok :
    decodeTimer sv s identity row = .ok registration ↔
      ∃ a receipt, Evidence sv s identity row a receipt ∧
        registration = registrationOf identity row a receipt := by
  simp only [decodeTimer, except_eq_ok, not_not]
  constructor
  · rintro ⟨found, hread, a, ha, hagrees, receipt, rfl, digest, hdigest, hsame, hsource, hreg⟩
    rw [← hsame] at hdigest
    refine ⟨a, receipt, ⟨hread, ha, hagrees, hdigest, by simpa using hsource⟩, ?_⟩
    cases hreg
    rfl
  · rintro ⟨a, receipt, hev, rfl⟩
    exact ⟨some receipt, hev.read, a, hev.arming, hev.agrees, receipt, rfl, _, hev.digest, rfl,
      by simp [hev.source], rfl⟩

structure Arms (sv : TimerServices) (s : TimerStore) (identity : EffectIdentity) (r : ArmRequest)
    (receipt : EffectReceipt) (s' : TimerStore) : Prop where
  operation : identity.operation = armOperation
  absent : s.timers.lookup (sv.journal.key identity) = none
  unrecorded : s.journal.effects.lookup (sv.journal.key identity) = none
  plain : ∃ digest, receipt.toReceiptFields = receiptFields digest (r.arming identity).json
  index : (insertRows sv.journal identity receipt s.journal).effectInvocations.lookup
    (sv.journal.key identity) = some identity.indexRow
  store : s' =
    { journal := insertRows sv.journal identity receipt s.journal
      timers := s.timers.put (sv.journal.key identity) (r.row identity) }
  reads : ∃ registration, readTimer sv identity s' = .ok (some registration)

theorem arm_eq_ok {r : ArmRequest} (h : (arm sv identity r lease).run s = .ok (registration, s')) :
    s' = s ∨ ∃ receipt, Arms sv s identity r receipt s' := by
  simp only [arm, run_eq_ok, ownedBy_eq_ok, get_eq_ok] at h
  obtain ⟨hrequest, -, digest, -, -, existing, hexisting, hfound⟩ := h
  have hop : identity.operation = armOperation := by
    by_contra hne
    exact hrequest (Or.inl hne)
  cases existing with
  | some =>
    simp only [armFound, run_eq_ok] at hfound
    obtain ⟨-, -, rfl⟩ := hfound
    exact Or.inl rfl
  | none =>
    simp only [armFound, armNew, run_eq_ok, getReceipt_eq_ok, onJournal_eq_ok,
      get_eq_ok, not_not] at hfound
    obtain ⟨_, hreceipt, rfl, -, receipt, hmake, _, hinsert, -, _, hread, hreg, rfl⟩ := hfound
    obtain ⟨-, rfl, hindex⟩ := insertCompletedReceipt_eq_ok hinsert
    refine Or.inr ⟨receipt, hop, readTimer_eq_none hexisting,
      readReceipt_eq_none hreceipt, ⟨digest, EffectReceipt.make_eq_ok hmake⟩,
      hindex, rfl, registration, ?_⟩
    rw [hread, hreg]

structure WakesNew (sv : TimerServices) (s : TimerStore) (known : TimerRegistration)
    (reason : WakeReason) (resumeInput : Json) (now : ℚ) (receipt : EffectReceipt)
    (w : TimerWake) (s' : TimerStore) : Prop where
  armed : readTimer sv known.identity s = .ok (some known)
  unrecorded : s.journal.effects.lookup (sv.journal.key known.identity.wake) = none
  pending : ∃ row, s.timers.lookup (sv.journal.key known.identity) = some row ∧
    row.state = .pending
  eligible : reason = .timerDue → known.wakeAt ≤ now
  plain : ∃ digest, receipt.toReceiptFields = receiptFields digest
    (wakeOutput (sv.journal.key known.identity) known.dueAt reason
      (if reason = .resumeRequested then resumeInput else .null))
  index : (insertRows sv.journal known.identity.wake receipt
    s.journal).effectInvocations.lookup (sv.journal.key known.identity.wake) =
      some known.identity.wake.indexRow
  value : wakeValue sv known receipt = .ok w
  store : s' = wakeRow (sv.journal.key known.identity)
    { s with journal := insertRows sv.journal known.identity.wake receipt s.journal }

theorem readTimer_identity (h : readTimer sv identity s = .ok (some known)) :
    known.identity = identity := by
  obtain ⟨row, -, hdecode⟩ := readTimer_eq_some h
  obtain ⟨a, receipt, -, rfl⟩ := decodeTimer_eq_ok.mp hdecode
  rfl

theorem wake_eq_ok {now : ℚ}
    (h : (wake sv registration reason resumeInput now lease).run s = .ok (w, s')) :
    ∃ known, known.identity = registration.identity ∧
      readTimer sv registration.identity s = .ok (some known) ∧
      ((s' = s ∧ ∃ receipt, readReceipt sv.journal known.identity.wake s.journal =
          .ok (some receipt) ∧ wakeValue sv known receipt = .ok w) ∨
        ∃ receipt, WakesNew sv s known reason resumeInput now receipt w s') := by
  simp only [wake, ownedBy_eq_ok, run_eq_ok, get_eq_ok, onJournal_getReceipt_eq_ok] at h
  obtain ⟨-, _, hget, known, rfl, -, existing, hexisting, hfound⟩ := h
  have hid := readTimer_identity hget
  refine ⟨known, hid, hget, ?_⟩
  rw [← hid] at hexisting hget
  cases existing with
  | some receipt =>
    obtain ⟨hvalue, rfl⟩ := orRaiseError_eq_ok.mp hfound
    exact Or.inl ⟨rfl, receipt, hexisting, hvalue⟩
  | none =>
    simp only [wakeFound, wakeNew, run_eq_ok, onJournal_eq_ok] at hfound
    obtain ⟨heligible, digest, -, receipt, hmake, _, hinsert, hvalue, rfl⟩ := hfound
    rw [not_or, not_not] at heligible
    obtain ⟨hpending, hdue⟩ := heligible
    obtain ⟨row, hrow, hstate⟩ := option_any_eq_true.mp hpending
    obtain ⟨-, rfl, hindex⟩ := insertCompletedReceipt_eq_ok hinsert
    exact Or.inr ⟨receipt, hget, readReceipt_eq_none hexisting,
      ⟨row, hrow, by simpa using hstate⟩, fun hr => not_lt.mp fun hlt => hdue ⟨hr, hlt⟩,
      ⟨digest, EffectReceipt.make_eq_ok hmake⟩, hindex, hvalue, rfl⟩

theorem consume_eq_ok {u : Unit} (h : (consume sv registration lease).run s = .ok (u, s')) :
    s' = consumeRow (sv.journal.key registration.identity) s := by
  simp only [consume, ownedBy_eq_ok, run_eq_ok, get_eq_ok] at h
  obtain ⟨-, _, -, -, _, -, -, -, rfl⟩ := h
  rfl

/-- The rows that the end of an invocation leaves. -/
def closeRows (invocationId fingerprint : String) (s : TimerStore) : TimerStore :=
  { s with timers := s.timers.mapRows fun _ => closeRow invocationId fingerprint }

theorem verifyInvocation_eq_ok {invocationId fingerprint : String} {u : Unit} :
    (verifyInvocation sv invocationId fingerprint).run s = .ok (u, s') ↔
      checkInvocation sv invocationId fingerprint s = .ok u ∧ s = s' := by
  simp only [verifyInvocation, run_eq_ok]

theorem closeInvocation_eq_ok {invocationId fingerprint : String} {u : Unit}
    (h : (closeInvocation sv invocationId fingerprint).run s = .ok (u, s')) :
    s' = closeRows invocationId fingerprint s := by
  simp only [closeInvocation, run_eq_ok, verifyInvocation_eq_ok] at h
  obtain ⟨-, rfl⟩ := h
  rfl

/-! ## Steps -/

section Steps

variable (sv) (fp : String → String)

/-- One committed transaction: an operation of the timers, or another use of the
journal and of the tables beside it. -/
inductive Step (s : TimerStore) : TimerStore → Prop where
  | arm {identity : EffectIdentity} {r : ArmRequest} {lease : Option ExecutionLease}
      {registration : TimerRegistration} {s' : TimerStore}
      (fingerprint : identity.workflowFingerprint = fp identity.invocationId)
      (run : (arm sv identity r lease).run s = .ok (registration, s')) : Step s s'
  | wake {registration : TimerRegistration} {reason : WakeReason} {resumeInput : Json} {now : ℚ}
      {lease : Option ExecutionLease} {w : TimerWake} {s' : TimerStore}
      (run : (wake sv registration reason resumeInput now lease).run s = .ok (w, s')) : Step s s'
  | consume {registration : TimerRegistration} {lease : Option ExecutionLease} {s' : TimerStore}
      (run : (consume sv registration lease).run s = .ok ((), s')) : Step s s'
  | close {invocationId fingerprint : String} {s' : TimerStore}
      (run : (closeInvocation sv invocationId fingerprint).run s = .ok ((), s')) : Step s s'
  | claim {owner key : String} {now leaseSeconds : ℚ} {claim : Option TimerClaim}
      {s' : TimerStore}
      (run : (claimDue sv owner key now leaseSeconds).run s = .ok (claim, s')) : Step s s'
  | release {claim : TimerClaim} {s' : TimerStore}
      (run : (releaseClaim sv claim).run s = .ok ((), s')) : Step s s'
  | insert {identity : EffectIdentity} {receipt : EffectReceipt} (other : ¬ IsTimer identity) :
      Step s { s with journal := insertRows sv.journal identity receipt s.journal }
  | resolve {identity : EffectIdentity} {owner : String} {receipt : EffectReceipt}
      (other : ¬ IsTimer identity) :
      Step s { s with
        journal := resolveRow sv.journal identity owner receipt s.journal }
  | runtime (runtime : RuntimeStore) (childBindings : Table String String)
      (dispatched : List (String × String)) :
      Step s { s with
        journal := { s.journal with
          runtime := runtime
          childBindings := childBindings
          dispatched := dispatched } }

abbrev Steps : TimerStore → TimerStore → Prop := Relation.ReflTransGen (Step sv fp)

/-- A new database: no timers and no receipts. -/
structure Initial (s : TimerStore) : Prop where
  timers : s.timers = ∅
  effects : s.journal.effects = ∅
  index : s.journal.effectInvocations = ∅

end Steps

/-! ## The books -/

/-- A decision that stands in both tables of the journal, of a kind that has no child and
no external outcome. -/
structure Recorded (sv : TimerServices) (s : TimerStore) (identity : EffectIdentity)
    (receipt : EffectReceipt) : Prop where
  effect : s.journal.effects.lookup (sv.journal.key identity) = some receipt.row
  index : s.journal.effectInvocations.lookup (sv.journal.key identity) = some identity.indexRow
  plain : ∃ digest output, receipt.toReceiptFields = receiptFields digest output

theorem Recorded.read (hsv : Reliable sv) (ht : IsTimer identity)
    (h : Recorded sv s identity receipt) :
    readReceipt sv.journal identity s.journal = .ok (some receipt) := by
  obtain ⟨digest, output, hplain⟩ := h.plain
  have hexternal : receipt.externalOutcome = none := by rw [hplain]; rfl
  have hchild : receipt.childInvocation = none := by rw [hplain]; rfl
  have hstatus : receipt.status = .completed := by rw [hplain]; rfl
  have hop : identity.operation ≠ "run:workflow" := by
    rcases ht with hop | hop <;> rw [hop] <;> decide
  exact readReceipt_of_row h.effect (hsv.verifies _ _ _ ht hexternal) hop hstatus
    (Or.inl hchild)

theorem Recorded.read_eq {receipt' : EffectReceipt} (hsv : Reliable sv) (ht : IsTimer identity)
    (h : Recorded sv s identity receipt)
    (hread : readReceipt sv.journal identity s.journal = .ok (some receipt')) :
    receipt' = receipt :=
  Option.some.inj (Except.ok.inj (hread.symm.trans (h.read hsv ht)))

/-- What the tables say of one timer. -/
structure RowBooks (sv : TimerServices) (fp : String → String) (s : TimerStore) (key : String)
    (row : TimerRow) : Prop where
  key_eq : key = sv.journal.key row.payload.identity
  fingerprint : row.payload.identity.workflowFingerprint = fp row.payload.identity.invocationId
  armed : ∃ a receipt, Recorded sv s row.payload.identity receipt ∧
    Evidence sv s row.payload.identity row a receipt ∧
    (row.left = some .wake → ∃ wakeReceipt w, Recorded sv s row.payload.identity.wake wakeReceipt ∧
      wakeValue sv (registrationOf row.payload.identity row a receipt) wakeReceipt = .ok w)
  pending : row.state = .pending ↔ row.left = none
  closed : row.left = some .close → row.state = .cancelled
  unwoken : row.left ≠ some .wake →
    s.journal.effects.lookup (sv.journal.key row.payload.identity.wake) = none

/-- What the tables say of one another. -/
structure Books (sv : TimerServices) (fp : String → String) (s : TimerStore) : Prop where
  rows : ∀ key row, s.timers.lookup key = some row → RowBooks sv fp s key row
  /-- Every wake receipt is the one of a timer. -/
  wakes : ∀ identity, identity.operation = wakeOperation →
    s.journal.effects.lookup (sv.journal.key identity) ≠ none →
    ∃ row, s.timers.lookup (sv.journal.key row.payload.identity) = some row ∧
      row.payload.identity.wake = identity
  /-- The index lists the armings and the wakes of timers, and no other timer identity. -/
  index : ∀ key irow, s.journal.effectInvocations.lookup key = some irow →
    IsTimer irow.payload → ∃ row, s.timers.lookup (sv.journal.key row.payload.identity) = some row ∧
      ((irow = row.payload.identity.indexRow ∧ key = sv.journal.key row.payload.identity) ∨
        (row.left = some .wake ∧ irow = row.payload.identity.wake.indexRow ∧
          key = sv.journal.key row.payload.identity.wake))

theorem Initial.books (h : Initial s) : Books sv fp s where
  rows key row hrow := by
    rw [h.timers] at hrow
    cases hrow
  wakes identity _ hne := by
    rw [h.effects] at hne
    exact absurd rfl hne
  index key irow hrow := by
    rw [h.index] at hrow
    cases hrow

theorem RowBooks.operation (h : RowBooks sv fp s key row) :
    row.payload.identity.operation = armOperation := by
  obtain ⟨a, receipt, -, hev, -⟩ := h.armed
  exact hev.agrees.2.2.2.1

/-! ## Steps that keep receipts -/

/-- The receipt of an identity is the same in both stores. -/
structure SameAt (sv : TimerServices) (s s' : TimerStore) (identity : EffectIdentity) : Prop where
  effect : s'.journal.effects.lookup (sv.journal.key identity) =
    s.journal.effects.lookup (sv.journal.key identity)
  index : s'.journal.effectInvocations.lookup (sv.journal.key identity) =
    s.journal.effectInvocations.lookup (sv.journal.key identity)

theorem SameAt.of_journal_eq (h : s'.journal = s.journal) (identity : EffectIdentity) :
    SameAt sv s s' identity := by
  constructor <;> rw [h]

/-- An insert for one identity leaves every other one alone. -/
theorem sameAt_insertRows (hsv : Reliable sv) {other : EffectIdentity} {t : Table String TimerRow}
    (h : other ≠ identity) :
    SameAt sv s ⟨insertRows sv.journal identity receipt s.journal, t⟩ other where
  effect := Table.lookup_insertNew_ne (hsv.key_injective.ne h)
  index := Table.lookup_insertNew_ne (hsv.key_injective.ne h)

theorem sameAt_resolveRow (hsv : Reliable sv) {other : EffectIdentity} (h : other ≠ identity) :
    SameAt sv s { s with
      journal := resolveRow sv.journal identity owner receipt s.journal } other where
  effect := Table.lookup_updateWhere_ne (hsv.key_injective.ne h)
  index := rfl

theorem Recorded.kept (h : Recorded sv s identity receipt) (hk : SameAt sv s s' identity) :
    Recorded sv s' identity receipt :=
  ⟨by rw [hk.effect]; exact h.effect, by rw [hk.index]; exact h.index, h.plain⟩

structure SameArming (row row' : TimerRow) : Prop where
  payload : row'.payload = row.payload
  invocationId : row'.invocationId = row.invocationId
  fingerprint : row'.fingerprint = row.fingerprint
  dueAt : row'.dueAt = row.dueAt
  wakeAt : row'.wakeAt = row.wakeAt

theorem SameArming.refl (row : TimerRow) : SameArming row row := ⟨rfl, rfl, rfl, rfl, rfl⟩

theorem SameArming.registrationOf (h : SameArming row row') (identity : EffectIdentity) (a : Arming)
    (receipt : EffectReceipt) :
    registrationOf identity row' a receipt = registrationOf identity row a receipt := by
  simp only [Timers.registrationOf, h.payload]

theorem Evidence.kept {a : Arming} (h : Evidence sv s identity row a receipt)
    (hread : readReceipt sv.journal identity s'.journal = .ok (some receipt))
    (hrow : SameArming row row') : Evidence sv s' identity row' a receipt where
  read := hread
  arming := by rw [hrow.payload]; exact h.arming
  agrees := by
    have hagrees := h.agrees
    unfold Agrees at hagrees ⊢
    rw [hrow.payload, hrow.invocationId, hrow.fingerprint, hrow.dueAt, hrow.wakeAt]
    exact hagrees
  digest := by rw [hrow.payload]; exact h.digest
  source := by rw [hrow.payload]; exact h.source

/-- How an operation other than `wake` turns a row: it stays, a woken timer is consumed, a
pending or a woken one is cancelled. -/
def Turn (row row' : TimerRow) : Prop :=
  (row'.state = row.state ∧ row'.left = row.left) ∨
  (row.state = .woken ∧ row'.state = .consumed ∧ row'.left = row.left) ∨
  (row.state = .pending ∧ row'.state = .cancelled ∧ row'.left = some .close) ∨
  (row.state = .woken ∧ row'.state = .cancelled ∧ row'.left = row.left)

theorem Turn.refl (row : TimerRow) : Turn row row := Or.inl ⟨rfl, rfl⟩

section Turns

theorem RowBooks.woken_left (h : RowBooks sv fp s key row) (hs : row.state = .woken) :
    row.left = some .wake := by
  cases hl : row.left with
  | none =>
    rw [h.pending.mpr hl] at hs
    cases hs
  | some d => cases d with
    | wake => rfl
    | close =>
      rw [h.closed hl] at hs
      cases hs

/-- What a turn keeps of the books of a row. -/
theorem RowBooks.turn (h : RowBooks sv fp s key row) (ht : Turn row row') :
    (row'.left = some .wake ↔ row.left = some .wake) ∧
      (row'.state = .pending ↔ row'.left = none) ∧
      (row'.left = some .close → row'.state = .cancelled) := by
  rcases ht with ⟨hs, hl⟩ | ⟨hwoken, hs, hl⟩ | ⟨hpending, hs, hl⟩ | ⟨hwoken, hs, hl⟩
  · rw [hs, hl]
    exact ⟨Iff.rfl, h.pending, h.closed⟩
  · rw [hs, hl, h.woken_left hwoken]
    simp
  · rw [hs, hl, h.pending.mp hpending]
    simp
  · rw [hs, hl, h.woken_left hwoken]
    simp

/-- The books of a row survive a turn wherever its two receipts are kept. -/
theorem RowBooks.kept (hsv : Reliable sv) (h : RowBooks sv fp s key row)
    (hrow : SameArming row row') (ht : Turn row row')
    (harm : SameAt sv s s' row.payload.identity)
    (hwake : SameAt sv s s' row.payload.identity.wake) : RowBooks sv fp s' key row' := by
  obtain ⟨hleft, hpending, hclosed⟩ := h.turn ht
  obtain ⟨a, receipt, hrec, hev, hw⟩ := h.armed
  have hrec' := hrec.kept harm
  have hev' := hev.kept (hrec'.read hsv (Or.inl h.operation)) hrow
  refine ⟨by rw [hrow.payload]; exact h.key_eq, by rw [hrow.payload]; exact h.fingerprint, ?_,
    hpending, hclosed, ?_⟩
  · rw [hrow.payload]
    refine ⟨a, receipt, hrec', hev', fun hl => ?_⟩
    obtain ⟨wakeReceipt, w, hwrec, hvalue⟩ := hw (hleft.mp hl)
    exact ⟨wakeReceipt, w, hwrec.kept hwake, by rw [hrow.registrationOf]; exact hvalue⟩
  · intro hl
    rw [hrow.payload, hwake.effect]
    exact h.unwoken fun hc => hl (hleft.mpr hc)

end Turns

/-- The receipts of timers are kept, and every row stays or turns. -/
structure Turns (sv : TimerServices) (s s' : TimerStore) : Prop where
  same : ∀ identity, IsTimer identity → SameAt sv s s' identity
  index : ∀ key irow, s'.journal.effectInvocations.lookup key = some irow →
    IsTimer irow.payload → s.journal.effectInvocations.lookup key = some irow
  absent : ∀ k, s.timers.lookup k = none → s'.timers.lookup k = none
  rows : ∀ k row, s.timers.lookup k = some row →
    ∃ row', s'.timers.lookup k = some row' ∧ SameArming row row' ∧ Turn row row'

theorem Turns.books (hsv : Reliable sv) (h : Turns sv s s') (hb : Books sv fp s) :
    Books sv fp s' where
  rows key row' hrow' := by
    cases hrow : s.timers.lookup key with
    | none =>
      rw [h.absent key hrow] at hrow'
      cases hrow'
    | some row =>
      obtain ⟨row'', hrow'', hsame, hturn⟩ := h.rows key row hrow
      rw [hrow'', Option.some.injEq] at hrow'
      subst hrow'
      have hbooks := hb.rows key row hrow
      exact hbooks.kept hsv hsame hturn (h.same _ (Or.inl hbooks.operation))
        (h.same _ (isTimer_wake _))
  wakes identity hop hne := by
    rw [(h.same identity (Or.inr hop)).effect] at hne
    obtain ⟨row, hrow, hid⟩ := hb.wakes identity hop hne
    obtain ⟨row', hrow', hsame, -⟩ := h.rows _ row hrow
    exact ⟨row', by rw [hsame.payload]; exact hrow', by rw [hsame.payload]; exact hid⟩
  index key irow hirow ht := by
    obtain ⟨row, hrow, hcase⟩ := hb.index key irow (h.index key irow hirow ht) ht
    obtain ⟨row', hrow', hsame, hturn⟩ := h.rows _ row hrow
    have hleft := ((hb.rows _ row hrow).turn hturn).1
    refine ⟨row', by rw [hsame.payload]; exact hrow', ?_⟩
    rw [hsame.payload, hleft]
    exact hcase

/-- Rows of which each turns on its own, while the journal stays. -/
theorem Turns.of_map {g : String → TimerRow → TimerRow} (hj : s'.journal = s.journal)
    (hmap : ∀ k, s'.timers.lookup k = (s.timers.lookup k).map (g k))
    (hg : ∀ k row, SameArming row (g k row) ∧ Turn row (g k row)) : Turns sv s s' where
  same identity _ := SameAt.of_journal_eq hj identity
  index key irow h _ := by rw [hj] at h; exact h
  absent k h := by rw [hmap, h]; rfl
  rows k row h := ⟨g k row, by rw [hmap, h]; rfl, hg k row⟩

/-- A change of the journal that no timer sees. -/
theorem Turns.of_journal {j : JournalStore}
    (hsame : ∀ identity, IsTimer identity → SameAt sv s { s with journal := j } identity)
    (hindex : ∀ key irow, j.effectInvocations.lookup key = some irow → IsTimer irow.payload →
      s.journal.effectInvocations.lookup key = some irow) :
    Turns sv s { s with journal := j } where
  same := hsame
  index := hindex
  absent _ h := h
  rows _ row h := ⟨row, h, SameArming.refl row, Turn.refl row⟩

theorem turns_updateWhere {p : TimerRow → Bool} {f : TimerRow → TimerRow}
    (hf : ∀ row, p row = true → SameArming row (f row) ∧ Turn row (f row)) :
    Turns sv s { s with timers := s.timers.updateWhere key p f } := by
  refine Turns.of_map rfl (fun _ => Table.lookup_updateWhere) fun k row => ?_
  split
  · next hp => exact hf row hp.2
  · exact ⟨SameArming.refl row, Turn.refl row⟩

theorem Turns.refl (s : TimerStore) : Turns sv s s :=
  Turns.of_map rfl (fun _ => Option.map_id'.symm) fun _ row => ⟨SameArming.refl row, Turn.refl row⟩

theorem consumeRow_turns (key : String) : Turns sv s (consumeRow key s) := by
  refine turns_updateWhere fun row hp => ⟨⟨rfl, rfl, rfl, rfl, rfl⟩, ?_⟩
  rcases of_decide_eq_true hp with hs | hs
  · exact Or.inr (Or.inl ⟨hs, rfl, rfl⟩)
  · exact Or.inl ⟨hs.symm, rfl⟩

theorem claimDue_turns {now leaseSeconds : ℚ} {claim : Option TimerClaim}
    (h : (claimDue sv owner key now leaseSeconds).run s = .ok (claim, s')) : Turns sv s s' := by
  simp only [claimDue, run_eq_ok] at h
  obtain ⟨-, _, -, hclaim⟩ := h
  unfold claimRow at hclaim
  split at hclaim
  · obtain ⟨-, rfl⟩ := hclaim
    exact Turns.refl _
  · obtain ⟨-, rfl⟩ := hclaim
    exact turns_updateWhere fun _ _ => ⟨⟨rfl, rfl, rfl, rfl, rfl⟩, Or.inl ⟨rfl, rfl⟩⟩

theorem releaseClaim_turns {claim : TimerClaim} {u : Unit}
    (h : (releaseClaim sv claim).run s = .ok (u, s')) : Turns sv s s' := by
  unfold releaseClaim at h
  rw [write_eq_ok] at h
  subst h
  exact turns_updateWhere fun _ _ => ⟨⟨rfl, rfl, rfl, rfl, rfl⟩, Or.inl ⟨rfl, rfl⟩⟩

theorem closeRow_turn (invocationId fingerprint : String) (row : TimerRow) :
    SameArming row (closeRow invocationId fingerprint row) ∧
      Turn row (closeRow invocationId fingerprint row) := by
  unfold closeRow
  split
  · next h =>
      refine ⟨⟨rfl, rfl, rfl, rfl, rfl⟩, ?_⟩
      rcases h.2.2 with hs | hs
      · exact Or.inr (Or.inr (Or.inl ⟨hs, rfl, if_pos hs⟩))
      · exact Or.inr (Or.inr (Or.inr ⟨hs, rfl, if_neg (by rw [hs]; decide)⟩))
  · exact ⟨SameArming.refl row, Turn.refl row⟩

theorem closeRows_turns (invocationId fingerprint : String) :
    Turns sv s (closeRows invocationId fingerprint s) :=
  Turns.of_map rfl (fun _ => Table.lookup_mapRows) fun _ => closeRow_turn invocationId fingerprint

/-- Receipts of other kinds are none of the timers' business. -/
theorem insert_turns (hsv : Reliable sv) (other : ¬ IsTimer identity) : Turns sv s
      { s with journal := insertRows sv.journal identity receipt s.journal } := by
  refine Turns.of_journal (fun o ho => ?_) (fun key irow h ht => ?_)
  · exact sameAt_insertRows hsv fun heq => other (heq ▸ ho)
  · rcases Table.lookup_insertNew_cases h with hold | ⟨-, -, rfl⟩
    · exact hold
    · exact absurd ht other

theorem resolve_turns (hsv : Reliable sv) (other : ¬ IsTimer identity) : Turns sv s
      { s with
        journal := resolveRow sv.journal identity owner receipt s.journal } :=
  Turns.of_journal (fun _ ho => sameAt_resolveRow hsv fun heq => other (heq ▸ ho))
    fun _ _ h _ => h

/-! ## Arming and waking -/

section Records

theorem wake_ne_of_ne (ha : a.operation = armOperation) (hb : b.operation = armOperation)
    (h : a ≠ b) : a.wake ≠ b.wake :=
  fun hw => h (eq_of_wake_eq (ha.trans hb.symm) hw)

variable {r : ArmRequest}

/-- The other timers do not see a new one. -/
theorem Arms.other (hsv : Reliable sv) (h : Arms sv s identity r receipt s')
    (hne : key ≠ sv.journal.key identity) (hb : RowBooks sv fp s key row) :
    RowBooks sv fp s' key row := by
  have hid : row.payload.identity ≠ identity := fun heq => hne (by rw [hb.key_eq, heq])
  have hwake : row.payload.identity.wake ≠ identity := (ne_wake_of_arm h.operation).symm
  rw [h.store]
  exact hb.kept hsv (SameArming.refl row) (Turn.refl row) (sameAt_insertRows hsv hid)
    (sameAt_insertRows hsv hwake)

/-- The new timer: its receipt is recorded, `get` read it back, and it has no wake. -/
theorem Arms.self (hsv : Reliable sv) (h : Arms sv s identity r receipt s') (hb : Books sv fp s)
    (hfp : identity.workflowFingerprint = fp identity.invocationId) :
    RowBooks sv fp s' (sv.journal.key identity) (r.row identity) := by
  have hrow : s'.timers.lookup (sv.journal.key identity) = some (r.row identity) := by
    rw [h.store]
    exact Table.lookup_put_self
  have hrec : Recorded sv s' identity receipt := by
    obtain ⟨digest, hplain⟩ := h.plain
    refine ⟨?_, ?_, digest, _, hplain⟩
    · rw [h.store]
      exact Table.lookup_insertNew_self_of_none h.unrecorded
    · rw [h.store]
      exact h.index
  obtain ⟨registration, hread⟩ := h.reads
  obtain ⟨row, hrow', hdecode⟩ := readTimer_eq_some hread
  rw [hrow, Option.some.injEq] at hrow'
  subst hrow'
  obtain ⟨a, receipt', hev, -⟩ := decodeTimer_eq_ok.mp hdecode
  obtain rfl := hrec.read_eq hsv (Or.inl h.operation) hev.read
  refine ⟨rfl, hfp, ⟨a, receipt', hrec, hev, fun hl => (by cases hl)⟩, by simp [ArmRequest.row],
    fun hl => (by cases hl), fun _ => ?_⟩
  -- a wake receipt under this identity would belong to a timer that is not there
  by_contra hne
  rw [h.store, (sameAt_insertRows hsv (ne_wake_of_arm h.operation).symm).effect] at hne
  obtain ⟨row, hlook, hid⟩ := hb.wakes identity.wake rfl hne
  have heq := eq_of_wake_eq ((hb.rows _ row hlook).operation.trans h.operation.symm) hid
  rw [heq, h.absent] at hlook
  cases hlook

theorem Arms.books (hsv : Reliable sv) (h : Arms sv s identity r receipt s') (hb : Books sv fp s)
    (hfp : identity.workflowFingerprint = fp identity.invocationId) : Books sv fp s' := by
  have hkeep : ∀ k row, s.timers.lookup k = some row → s'.timers.lookup k = some row := by
    intro k row hrow
    have hk : k ≠ sv.journal.key identity := by
      rintro rfl
      rw [h.absent] at hrow
      cases hrow
    rw [h.store, ← hrow]
    exact Table.lookup_put_ne hk
  refine ⟨fun key row hrow => ?_, fun other hop hne => ?_, fun key irow hirow ht => ?_⟩
  · by_cases hk : key = sv.journal.key identity
    · subst hk
      rw [h.store] at hrow
      have hput : (s.timers.put (sv.journal.key identity) (r.row identity)).lookup
          (sv.journal.key identity) = some row := hrow
      rw [Table.lookup_put_self, Option.some.injEq] at hput
      subst hput
      exact h.self hsv hb hfp
    · rw [h.store] at hrow
      have hold : s.timers.lookup key = some row := by
        rw [← hrow]
        exact (Table.lookup_put_ne hk).symm
      exact h.other hsv hk (hb.rows key row hold)
  · have hother : other ≠ identity := by
      rintro rfl
      exact armOperation_ne_wakeOperation (h.operation.symm.trans hop)
    rw [h.store, (sameAt_insertRows hsv hother).effect] at hne
    obtain ⟨row, hrow, hid⟩ := hb.wakes other hop hne
    exact ⟨row, hkeep _ row hrow, hid⟩
  · rw [h.store] at hirow
    rcases Table.lookup_insertNew_cases hirow with hold | ⟨-, rfl, rfl⟩
    · obtain ⟨row, hrow, hcase⟩ := hb.index key irow hold ht
      exact ⟨row, hkeep _ row hrow, hcase⟩
    · refine ⟨r.row identity, ?_, Or.inl ⟨rfl, rfl⟩⟩
      rw [h.store]
      exact Table.lookup_put_self

end Records

theorem readTimer_of_evidence {a : Arming}
    (hrow : s.timers.lookup (sv.journal.key identity) = some row)
    (hev : Evidence sv s identity row a receipt) :
    readTimer sv identity s = .ok (some (registrationOf identity row a receipt)) := by
  have hdecode := decodeTimer_eq_ok.mpr ⟨a, receipt, hev, rfl⟩
  unfold readTimer
  rw [hrow]
  simp only [hdecode]

/-- The row that a first wake turns: it was pending, and is woken now. -/
def wokenRow (row : TimerRow) : TimerRow :=
  { row with
    state := .woken
    claimOwner := none
    leaseUntil := none
    left := some .wake }

theorem lookup_wakeRow_ne {k : String} (h : k ≠ key) :
    (wakeRow key s).timers.lookup k = s.timers.lookup k :=
  Table.lookup_updateWhere_ne h

theorem lookup_wakeRow_self (h : s.timers.lookup key = some row) (hp : row.state = .pending) :
    (wakeRow key s).timers.lookup key = some (wokenRow row) := by
  show (s.timers.updateWhere _ _ _).lookup _ = _
  rw [Table.lookup_updateWhere_self, h, Option.map_some, if_pos (decide_eq_true hp)]
  rfl

section FirstWake

variable {now : ℚ}

theorem WakesNew.sameAt (hsv : Reliable sv)
    (h : WakesNew sv s known reason resumeInput now receipt w s')
    (hne : identity ≠ known.identity.wake) : SameAt sv s s' identity := by
  rw [h.store]
  exact sameAt_insertRows hsv hne

section

variable (h : WakesNew sv s known reason resumeInput now receipt w s')

include h

theorem WakesNew.recorded : Recorded sv s' known.identity.wake receipt := by
  obtain ⟨digest, hplain⟩ := h.plain
  refine ⟨?_, ?_, digest, _, hplain⟩
  · rw [h.store]
    exact Table.lookup_insertNew_self_of_none h.unrecorded
  · rw [h.store]
    exact h.index

theorem WakesNew.lookup_ne {k : String} (hk : k ≠ sv.journal.key known.identity) :
    s'.timers.lookup k = s.timers.lookup k := by
  rw [h.store]
  exact lookup_wakeRow_ne hk

theorem WakesNew.lookup_self (hrow : s.timers.lookup (sv.journal.key known.identity) = some row) :
    row.state = .pending ∧
      s'.timers.lookup (sv.journal.key known.identity) = some (wokenRow row) := by
  obtain ⟨row', hrow', hpending⟩ := h.pending
  rw [hrow, Option.some.injEq] at hrow'
  subst hrow'
  refine ⟨hpending, ?_⟩
  rw [h.store]
  exact lookup_wakeRow_self hrow hpending

end

theorem WakesNew.self (hsv : Reliable sv)
    (h : WakesNew sv s known reason resumeInput now receipt w s')
    (hrow : s.timers.lookup (sv.journal.key known.identity) = some row)
    (hb : RowBooks sv fp s (sv.journal.key known.identity) row) :
    RowBooks sv fp s' (sv.journal.key known.identity) (wokenRow row) := by
  have hid : row.payload.identity = known.identity := (hsv.key_injective hb.key_eq).symm
  have hsame : SameArming row (wokenRow row) := ⟨rfl, rfl, rfl, rfl, rfl⟩
  have harm := h.sameAt hsv (ne_wake_of_arm hb.operation (b := known.identity))
  obtain ⟨a, armReceipt, hrec, hev, -⟩ := hb.armed
  have hrec' := hrec.kept harm
  have hev' := hev.kept (hrec'.read hsv (Or.inl hb.operation)) hsame
  have hknown : known = registrationOf row.payload.identity row a armReceipt := by
    have hread := h.armed
    rw [← hid, readTimer_of_evidence (by rw [hid]; exact hrow) hev] at hread
    cases hread
    rfl
  refine ⟨hb.key_eq, hb.fingerprint, ⟨a, armReceipt, hrec', hev', fun _ => ?_⟩,
    by simp [wokenRow], fun hl => by simp [wokenRow] at hl, fun hl => absurd rfl hl⟩
  refine ⟨receipt, w, ?_, ?_⟩
  · show Recorded sv s' row.payload.identity.wake receipt
    rw [hid]
    exact h.recorded
  · rw [hsame.registrationOf]
    show wakeValue sv (registrationOf row.payload.identity row a armReceipt) receipt = .ok w
    rw [← hknown]
    exact h.value

theorem WakesNew.books (hsv : Reliable sv)
    (h : WakesNew sv s known reason resumeInput now receipt w s') (hb : Books sv fp s) :
    Books sv fp s' := by
  obtain ⟨row₀, hrow₀, -⟩ := h.pending
  have hb₀ := hb.rows _ row₀ hrow₀
  obtain ⟨-, hself⟩ := h.lookup_self hrow₀
  have hid₀ : row₀.payload.identity = known.identity := (hsv.key_injective hb₀.key_eq).symm
  -- every timer is still there, and a wake it had it still has
  have hkeep : ∀ row, s.timers.lookup (sv.journal.key row.payload.identity) = some row →
      ∃ row', s'.timers.lookup (sv.journal.key row'.payload.identity) = some row' ∧
        row'.payload = row.payload ∧ (row.left = some .wake → row'.left = some .wake) := by
    intro row hrow
    by_cases hk : row.payload.identity = known.identity
    · rw [hk, hrow₀, Option.some.injEq] at hrow
      subst hrow
      exact ⟨wokenRow row₀, by rw [← hid₀] at hself; exact hself, rfl, fun _ => rfl⟩
    · refine ⟨row, ?_, rfl, fun hl => hl⟩
      rw [h.lookup_ne (hsv.key_injective.ne hk), hrow]
  refine ⟨fun key row hrow => ?_, fun other hop hne => ?_, fun key irow hirow ht => ?_⟩
  · by_cases hk : key = sv.journal.key known.identity
    · subst hk
      rw [hself, Option.some.injEq] at hrow
      subst hrow
      exact h.self hsv hrow₀ hb₀
    · rw [h.lookup_ne hk] at hrow
      have hbooks := hb.rows key row hrow
      have hne : row.payload.identity ≠ known.identity := fun heq => hk (by
        rw [hbooks.key_eq, heq])
      have hop₀ : known.identity.operation = armOperation := by rw [← hid₀]; exact hb₀.operation
      exact hbooks.kept hsv (SameArming.refl row) (Turn.refl row)
        (h.sameAt hsv (ne_wake_of_arm hbooks.operation))
        (h.sameAt hsv (wake_ne_of_ne hbooks.operation hop₀ hne))
  · by_cases ho : other = known.identity.wake
    · exact ⟨wokenRow row₀, by rw [← hid₀] at hself; exact hself, by
        rw [ho, ← hid₀]
        rfl⟩
    · rw [(h.sameAt hsv ho).effect] at hne
      obtain ⟨row, hrow, hid⟩ := hb.wakes other hop hne
      obtain ⟨row', hrow', hpayload, -⟩ := hkeep row hrow
      exact ⟨row', hrow', by rw [hpayload]; exact hid⟩
  · rw [h.store] at hirow
    rcases Table.lookup_insertNew_cases hirow with hold | ⟨-, rfl, rfl⟩
    · obtain ⟨row, hrow, hcase⟩ := hb.index key irow hold ht
      obtain ⟨row', hrow', hpayload, hleft⟩ := hkeep row hrow
      refine ⟨row', hrow', ?_⟩
      rw [hpayload]
      exact hcase.imp_right fun hc => ⟨hleft hc.1, hc.2⟩
    · refine ⟨wokenRow row₀, by rw [← hid₀] at hself; exact hself, Or.inr ⟨rfl, ?_, ?_⟩⟩
      · rw [← hid₀]
        rfl
      · rw [← hid₀]
        rfl

end FirstWake

/-! ## Every run -/

section Runs

/-- What a step does to the timers: rows turn, a new one is armed, or one is woken. -/
theorem Step.cases (hsv : Reliable sv) (h : Step sv fp s s') :
    Turns sv s s' ∨ (∃ identity r receipt, identity.workflowFingerprint = fp identity.invocationId ∧
        Arms sv s identity r receipt s') ∨
      ∃ registration reason resumeInput now lease w known receipt,
        (Timers.wake sv registration reason resumeInput now lease).run s = .ok (w, s') ∧
        known.identity = registration.identity ∧
        WakesNew sv s known reason resumeInput now receipt w s' := by
  cases h with
  | arm hfp run =>
    rcases arm_eq_ok run with rfl | ⟨receipt, harms⟩
    · exact Or.inl (Turns.refl _)
    · exact Or.inr (Or.inl ⟨_, _, receipt, hfp, harms⟩)
  | wake run =>
    obtain ⟨known, hid, -, ⟨rfl, -⟩ | ⟨receipt, hnew⟩⟩ := wake_eq_ok run
    · exact Or.inl (Turns.refl _)
    · exact Or.inr (Or.inr ⟨_, _, _, _, _, _, known, receipt, run, hid, hnew⟩)
  | consume run =>
    rw [consume_eq_ok run]
    exact Or.inl (consumeRow_turns _)
  | close run =>
    rw [closeInvocation_eq_ok run]
    exact Or.inl (closeRows_turns _ _)
  | claim run => exact Or.inl (claimDue_turns run)
  | release run => exact Or.inl (releaseClaim_turns run)
  | insert other => exact Or.inl (insert_turns hsv other)
  | resolve other => exact Or.inl (resolve_turns hsv other)
  | runtime =>
    exact Or.inl (Turns.of_journal (fun _ _ => ⟨rfl, rfl⟩) fun _ _ hirow _ => hirow)

theorem Step.books (hsv : Reliable sv) (h : Step sv fp s s') (hb : Books sv fp s) :
    Books sv fp s' := by
  rcases h.cases hsv with hturns | ⟨identity, r, receipt, hfp, harms⟩ |
    ⟨_, _, _, _, _, _, known, receipt, -, -, hnew⟩
  · exact hturns.books hsv hb
  · exact harms.books hsv hb hfp
  · exact hnew.books hsv hb

theorem Steps.books (hsv : Reliable sv) (h : Steps sv fp s s') (hb : Books sv fp s) :
    Books sv fp s' := by
  induction h with
  | refl => exact hb
  | tail _ hstep ih => exact hstep.books hsv ih

end Runs

/-! ## Verification -/

section Verify

theorem except_mapM_eq_ok {α β ε : Type} {f : α → Except ε β} {g : α → β} {l : List α}
    (h : ∀ a ∈ l, f a = .ok (g a)) : l.mapM f = .ok (l.map g) := by
  induction l with
  | nil => rfl
  | cons a _ ih =>
    rw [List.mapM_cons, h a List.mem_cons_self, ih fun b hb => h b (List.mem_cons_of_mem a hb)]
    rfl

/-- The key of the wake of a row, if it left `pending` through `wake`. -/
def wakeKey (sv : TimerServices) (r : String × TimerRow) : Option String :=
  if r.2.left = some .wake then some (sv.journal.key r.2.payload.identity.wake) else none

theorem RowBooks.invocationId (h : RowBooks sv fp s key row) :
    row.invocationId = row.payload.identity.invocationId := by
  obtain ⟨a, receipt, -, hev, -⟩ := h.armed
  exact hev.agrees.2.1

theorem RowBooks.verifyWake (hsv : Reliable sv) (h : RowBooks sv fp s key row) {a : Arming}
    (hw : row.left = some .wake → ∃ wakeReceipt w, Recorded sv s row.payload.identity.wake
      wakeReceipt ∧
      wakeValue sv (registrationOf row.payload.identity row a receipt) wakeReceipt = .ok w) :
    ∃ found, readReceipt sv.journal row.payload.identity.wake s.journal = .ok found ∧
      verifyWake sv (registrationOf row.payload.identity row a receipt) row.state found =
        .ok (wakeKey sv (key, row)) := by
  by_cases hl : row.left = some .wake
  · -- left through `wake`: the receipt is there and fits
    obtain ⟨wakeReceipt, w, hrec, hvalue⟩ := hw hl
    refine ⟨some wakeReceipt, hrec.read hsv (isTimer_wake _), ?_⟩
    have hstate : row.state ≠ .pending := fun hp => by
      rw [h.pending.mp hp] at hl
      cases hl
    unfold Timers.verifyWake
    rw [if_pos (Or.inr (Or.inr (by simp)))]
    simp only [except_eq_ok]
    refine ⟨wakeReceipt, rfl, hstate, w, hvalue, ?_⟩
    unfold wakeKey
    rw [if_pos hl]
    rfl
  · -- still pending, or closed while pending
    have hnone := h.unwoken hl
    refine ⟨none, by unfold readReceipt; rw [hnone], ?_⟩
    have hstate : ¬ (row.state = .woken ∨ row.state = .consumed ∨
        (none : Option EffectReceipt) ≠ none) := by
      rintro (hs | hs | hs)
      · exact hl (h.woken_left hs)
      · cases hleft : row.left with
        | none =>
          rw [h.pending.mpr hleft] at hs
          cases hs
        | some d => cases d with
          | wake => exact hl hleft
          | close =>
            rw [h.closed hleft] at hs
            cases hs
      · exact hs rfl
    unfold Timers.verifyWake
    rw [if_neg hstate]
    unfold wakeKey
    rw [if_neg hl]
    rfl

theorem RowBooks.verifyRow (hsv : Reliable sv) (h : RowBooks sv fp s key row)
    (hrow : s.timers.lookup key = some row) :
    verifyRow sv (fp row.invocationId) s (key, row) = .ok (wakeKey sv (key, row)) := by
  have hkey := h.key_eq
  obtain ⟨a, receipt, hrec, hev, hw⟩ := h.armed
  obtain ⟨found, hread, hverify⟩ := h.verifyWake hsv hw
  have hget := readTimer_of_evidence (by rw [← hkey]; exact hrow) hev
  simp only [Timers.verifyRow, except_eq_ok, not_not]
  refine ⟨hkey, _, hget, _, rfl, ?_, found, hread, hverify⟩
  rw [h.invocationId]
  exact h.fingerprint

variable {invocationId : String}

theorem mem_indexedTimers :
    (key, identity) ∈ indexedTimers invocationId s ↔
      ∃ irow, s.journal.effectInvocations.lookup key = some irow ∧
        irow.invocationId = invocationId ∧ irow.payload = identity ∧ IsTimer identity := by
  simp only [indexedTimers, IsTimer, List.mem_map, Table.mem_selectRows, Prod.mk.injEq,
    decide_eq_true_eq]
  constructor
  · rintro ⟨⟨k, irow⟩, ⟨hmem, hid, hop⟩, rfl, rfl⟩
    exact ⟨irow, Table.mem_rows.mp hmem, hid, rfl, hop⟩
  · rintro ⟨irow, hlook, hid, rfl, hop⟩
    exact ⟨(key, irow), ⟨Table.mem_rows.mpr hlook, hid, hop⟩, rfl, rfl⟩

theorem mem_keysOf {operation : String} {indexed : List (String × EffectIdentity)} :
    key ∈ keysOf operation indexed ↔
      ∃ identity, (key, identity) ∈ indexed ∧ identity.operation = operation := by
  simp only [keysOf, List.mem_map, List.mem_filter, decide_eq_true_eq]
  constructor
  · rintro ⟨⟨k, identity⟩, ⟨hmem, hop⟩, rfl⟩
    exact ⟨identity, hmem, hop⟩
  · rintro ⟨identity, hmem, hop⟩
    exact ⟨(key, identity), ⟨hmem, hop⟩, rfl⟩

/-- The rows of an invocation, as `verify_invocation` selects them. -/
def rowsOf (invocationId : String) (s : TimerStore) : List (String × TimerRow) :=
  s.timers.selectRows fun _ row => row.invocationId = invocationId

theorem mem_rowsOf :
    (key, row) ∈ rowsOf invocationId s ↔
      s.timers.lookup key = some row ∧ row.invocationId = invocationId := by
  unfold rowsOf
  rw [Table.mem_selectRows, Table.mem_rows, decide_eq_true_eq]

theorem Books.indexed (hb : Books sv fp s) (h : (key, identity) ∈ indexedTimers invocationId s) :
    identity.workflowFingerprint = fp invocationId ∧ key = sv.journal.key identity := by
  obtain ⟨irow, hlook, hinv, rfl, ht⟩ := mem_indexedTimers.mp h
  obtain ⟨row, hrow, hcase⟩ := hb.index key irow hlook ht
  have hfp := (hb.rows _ row hrow).fingerprint
  rcases hcase with ⟨rfl, rfl⟩ | ⟨-, rfl, rfl⟩
  · exact ⟨by rw [← hinv]; exact hfp, rfl⟩
  · exact ⟨by rw [← hinv]; exact hfp, rfl⟩

theorem Books.arms (hb : Books sv fp s) (invocationId key : String) :
    key ∈ keysOf armOperation (indexedTimers invocationId s) ↔
      key ∈ (rowsOf invocationId s).map Prod.fst := by
  rw [mem_keysOf, List.mem_map]
  constructor
  · rintro ⟨identity, hmem, hop⟩
    obtain ⟨irow, hlook, hinv, rfl, ht⟩ := mem_indexedTimers.mp hmem
    obtain ⟨row, hrow, ⟨rfl, rfl⟩ | ⟨-, rfl, -⟩⟩ := hb.index key irow hlook ht
    · refine ⟨(_, row), mem_rowsOf.mpr ⟨hrow, ?_⟩, rfl⟩
      rw [(hb.rows _ row hrow).invocationId]
      exact hinv
    · exact absurd hop.symm armOperation_ne_wakeOperation
  · rintro ⟨⟨k, row⟩, hmem, rfl⟩
    obtain ⟨hrow, hinv⟩ := mem_rowsOf.mp hmem
    have hbooks := hb.rows k row hrow
    obtain ⟨a, receipt, hrec, -, -⟩ := hbooks.armed
    refine ⟨row.payload.identity, mem_indexedTimers.mpr ⟨row.payload.identity.indexRow, ?_, ?_, rfl,
      Or.inl hbooks.operation⟩, hbooks.operation⟩
    · rw [hbooks.key_eq]
      exact hrec.index
    · rw [← hinv, hbooks.invocationId]
      rfl

theorem Books.wakeKeys (hb : Books sv fp s) (invocationId key : String) :
    key ∈ keysOf wakeOperation (indexedTimers invocationId s) ↔
      key ∈ ((rowsOf invocationId s).map (wakeKey sv)).filterMap id := by
  rw [mem_keysOf]
  simp only [List.mem_filterMap, List.mem_map, id]
  constructor
  · rintro ⟨identity, hmem, hop⟩
    obtain ⟨irow, hlook, hinv, rfl, ht⟩ := mem_indexedTimers.mp hmem
    obtain ⟨row, hrow, ⟨rfl, -⟩ | ⟨hleft, rfl, rfl⟩⟩ := hb.index key irow hlook ht
    · exact absurd ((hb.rows _ row hrow).operation.symm.trans hop) armOperation_ne_wakeOperation
    · refine ⟨_, ⟨(_, row), mem_rowsOf.mpr ⟨hrow, ?_⟩, if_pos hleft⟩, rfl⟩
      rw [(hb.rows _ row hrow).invocationId]
      exact hinv
  · rintro ⟨o, ⟨⟨k, row⟩, hmem, rfl⟩, hkey⟩
    obtain ⟨hrow, hinv⟩ := mem_rowsOf.mp hmem
    have hbooks := hb.rows k row hrow
    unfold wakeKey at hkey
    split at hkey
    · next hleft =>
        simp only [Option.some.injEq] at hkey
        subst hkey
        obtain ⟨a, receipt, -, -, hw⟩ := hbooks.armed
        obtain ⟨wakeReceipt, w, hrec, -⟩ := hw hleft
        refine ⟨row.payload.identity.wake,
          mem_indexedTimers.mpr ⟨_, hrec.index, ?_, rfl, isTimer_wake _⟩, rfl⟩
        rw [← hinv, hbooks.invocationId]
        rfl
    · cases hkey

/-- **The validator is closed under the operations.**  Books that agree pass
`verify_invocation`. -/
theorem Books.checkInvocation (hsv : Reliable sv) (hb : Books sv fp s) (invocationId : String) :
    checkInvocation sv invocationId (fp invocationId) s = .ok () := by
  have hrows : (rowsOf invocationId s).mapM (Timers.verifyRow sv (fp invocationId) s) =
      .ok ((rowsOf invocationId s).map (wakeKey sv)) := by
    refine except_mapM_eq_ok fun r hr => ?_
    obtain ⟨key, row⟩ := r
    obtain ⟨hrow, rfl⟩ := mem_rowsOf.mp hr
    exact (hb.rows key row hrow).verifyRow hsv hrow
  simp only [Timers.checkInvocation, except_eq_ok, not_not, Bool.not_eq_false]
  refine ⟨?_, sameSet_iff.mpr (hb.arms invocationId), _, hrows,
    sameSet_iff.mpr (hb.wakeKeys invocationId)⟩
  rw [List.all_eq_true]
  rintro ⟨key, identity⟩ hmem
  exact decide_eq_true (hb.indexed hmem)

end Verify

/-! ## The results -/

section Results

inductive Moves : TimerState → TimerState → Prop where
  | stay (state : TimerState) : Moves state state
  | wake : Moves .pending .woken
  | consume : Moves .woken .consumed
  | cancelPending : Moves .pending .cancelled
  | cancelWoken : Moves .woken .cancelled

theorem Turn.moves (h : Turn row row') : Moves row.state row'.state := by
  rcases h with ⟨hs, -⟩ | ⟨hw, hs, -⟩ | ⟨hp, hs, -⟩ | ⟨hw, hs, -⟩
  · rw [hs]
    exact .stay _
  · rw [hw, hs]
    exact .consume
  · rw [hp, hs]
    exact .cancelPending
  · rw [hw, hs]
    exact .cancelWoken

theorem Step.moves (hsv : Reliable sv) (h : Step sv fp s s') (hrow : s.timers.lookup key = some row)
    :
    ∃ row', s'.timers.lookup key = some row' ∧ Moves row.state row'.state := by
  rcases h.cases hsv with hturns | ⟨identity, r, receipt, -, harms⟩ |
    ⟨_, _, _, _, _, _, known, receipt, -, -, hnew⟩
  · obtain ⟨row', hrow', -, hturn⟩ := hturns.rows key row hrow
    exact ⟨row', hrow', hturn.moves⟩
  · have hk : key ≠ sv.journal.key identity := by
      rintro rfl
      rw [harms.absent] at hrow
      cases hrow
    refine ⟨row, ?_, .stay _⟩
    rw [harms.store, ← hrow]
    exact Table.lookup_put_ne hk
  · by_cases hk : key = sv.journal.key known.identity
    · subst hk
      obtain ⟨hpending, hself⟩ := hnew.lookup_self hrow
      refine ⟨wokenRow row, hself, ?_⟩
      rw [hpending]
      exact .wake
    · exact ⟨row, by rw [hnew.lookup_ne hk, hrow], .stay _⟩

theorem Step.recorded (hsv : Reliable sv) (h : Step sv fp s s') (ht : IsTimer identity)
    (hrec : Recorded sv s identity receipt) :
    Recorded sv s' identity receipt := by
  have habsurd : s.journal.effects.lookup (sv.journal.key identity) ≠ none := by
    rw [hrec.effect]
    simp
  rcases h.cases hsv with hturns | ⟨other, r, other_receipt, -, harms⟩ |
    ⟨_, _, _, _, _, _, known, _, -, -, hnew⟩
  · exact hrec.kept (hturns.same identity ht)
  · have hne : identity ≠ other := fun heq => habsurd (heq ▸ harms.unrecorded)
    rw [harms.store]
    exact hrec.kept (sameAt_insertRows hsv hne)
  · exact hrec.kept (hnew.sameAt hsv fun heq => habsurd (heq ▸ hnew.unrecorded))

theorem Steps.recorded (hsv : Reliable sv) (h : Steps sv fp s s') (ht : IsTimer identity)
    (hrec : Recorded sv s identity receipt) :
    Recorded sv s' identity receipt := by
  induction h with
  | refl => exact hrec
  | tail _ hstep ih => exact hstep.recorded hsv ht ih

theorem Books.recorded_wake (hb : Books sv fp s)
    (h : s.journal.effects.lookup (sv.journal.key identity.wake) ≠ none) :
    ∃ receipt, Recorded sv s identity.wake receipt := by
  obtain ⟨row, hrow, hid⟩ := hb.wakes identity.wake rfl h
  have hbooks := hb.rows _ row hrow
  obtain ⟨a, receipt, -, -, hw⟩ := hbooks.armed
  have hleft : row.left = some .wake := by
    by_contra hl
    rw [← hid] at h
    exact h (hbooks.unwoken hl)
  obtain ⟨wakeReceipt, w, hrec, -⟩ := hw hleft
  exact ⟨wakeReceipt, by rw [← hid]; exact hrec⟩

theorem wakeValue_eq_ok (h : wakeValue sv known receipt = .ok w) :
    readWake (sv.journal.key known.identity) known.dueAt receipt.output =
      some (w.reason, w.resumeInput) ∧ w.receipt = receipt := by
  simp only [wakeValue, except_eq_ok] at h
  obtain ⟨value, hvalue, digest, -, -, hw⟩ := h
  cases hw
  exact ⟨hvalue, rfl⟩

/-- The reason and the input are fields of the output, whatever registration reads it. -/
theorem readWake_eq_some {timerKey : String} {dueAt : ℚ} {value : Json}
    {x : WakeReason × Json} (h : readWake timerKey dueAt value = some x) :
    (Arming.readText "reason" value).bind WakeReason.ofText = some x.1 ∧
      value.field? "resume_input" = some x.2 := by
  unfold readWake at h
  split at h
  · simp only [Option.bind_eq_bind, Option.bind_eq_some_iff] at h
    obtain ⟨reason, hreason, resumeInput, hinput, hx⟩ := h
    split at hx
    · cases hx
    · cases hx
      exact ⟨Option.bind_eq_some_iff.mpr hreason, hinput⟩
  · cases h

theorem wakeValue_agree {known' : TimerRegistration} {w' : TimerWake}
    (h : wakeValue sv known receipt = .ok w) (h' : wakeValue sv known' receipt = .ok w') :
    w'.reason = w.reason ∧ w'.resumeInput = w.resumeInput := by
  obtain ⟨hreason, hinput⟩ := readWake_eq_some (wakeValue_eq_ok h).1
  obtain ⟨hreason', hinput'⟩ := readWake_eq_some (wakeValue_eq_ok h').1
  rw [hreason, Option.some.injEq] at hreason'
  rw [hinput, Option.some.injEq] at hinput'
  exact ⟨hreason'.symm, hinput'.symm⟩

theorem wake_recorded (hsv : Reliable sv) (hb : Books sv fp s) {registration : TimerRegistration}
    {now : ℚ} {lease : Option ExecutionLease}
    (h : (wake sv registration reason resumeInput now lease).run s = .ok (w, s')) :
    ∃ known receipt, Recorded sv s' registration.identity.wake receipt ∧
      wakeValue sv known receipt = .ok w := by
  obtain ⟨known, hid, -, ⟨rfl, receipt, hread, hvalue⟩ | ⟨receipt, hnew⟩⟩ := wake_eq_ok h
  · rw [hid] at hread
    have hne : s'.journal.effects.lookup (sv.journal.key registration.identity.wake) ≠ none := by
      rw [readReceipt_eq_some hread]
      simp
    obtain ⟨receipt', hrec⟩ := hb.recorded_wake hne
    obtain rfl := hrec.read_eq hsv (isTimer_wake _) hread
    exact ⟨known, receipt, hrec, hvalue⟩
  · exact ⟨known, receipt, by rw [← hid]; exact hnew.recorded, hnew.value⟩

/-- The recorded reason of a first wake is the one it was called with. -/
theorem WakesNew.reason_eq {now : ℚ} (h : WakesNew sv s known reason resumeInput now receipt w s') :
    w.reason = reason := by
  obtain ⟨digest, hplain⟩ := h.plain
  have hread := (wakeValue_eq_ok h.value).1
  have houtput : receipt.output = wakeOutput (sv.journal.key known.identity) known.dueAt reason
      (if reason = .resumeRequested then resumeInput else .null) := by
    rw [hplain]
    rfl
  have hnull : reason = .timerDue →
      (if reason = .resumeRequested then resumeInput else .null) = Json.null := by
    rintro rfl
    rfl
  rw [houtput, readWake_wakeOutput hnull, Option.some.injEq, Prod.mk.injEq] at hread
  exact hread.1.symm

theorem readTimer_wakeAt (h : readTimer sv identity s = .ok (some known)) :
    known.wakeAt = Arming.earliest known.dueAt known.deadlineAt := by
  obtain ⟨row, -, hdecode⟩ := readTimer_eq_some h
  obtain ⟨a, receipt, hev, rfl⟩ := decodeTimer_eq_ok.mp hdecode
  exact hev.agrees.2.2.2.2.2.1.2.2.2.2.1

/-- Only a wake records a wake, and never before its time. -/
theorem Step.records_wake (hsv : Reliable sv) (h : Step sv fp s s')
    (hnone : s.journal.effects.lookup (sv.journal.key identity.wake) = none)
    (hsome : s'.journal.effects.lookup (sv.journal.key identity.wake) ≠ none) :
    ∃ registration reason resumeInput now lease w known receipt,
      (Timers.wake sv registration reason resumeInput now lease).run s = .ok (w, s') ∧
      registration.identity.wake = identity.wake ∧
      known.identity = registration.identity ∧
      WakesNew sv s known reason resumeInput now receipt w s' := by
  rcases h.cases hsv with hturns | ⟨other, r, receipt, -, harms⟩ |
    ⟨registration, reason, resumeInput, now, lease, w, known, receipt, run, hid, hnew⟩
  · rw [(hturns.same _ (isTimer_wake identity)).effect] at hsome
    exact absurd hnone hsome
  · have hne : identity.wake ≠ other := (ne_wake_of_arm harms.operation).symm
    rw [harms.store, (sameAt_insertRows hsv hne).effect] at hsome
    exact absurd hnone hsome
  · have heq : identity.wake = known.identity.wake := by
      by_contra hne
      rw [(hnew.sameAt hsv hne).effect] at hsome
      exact hsome hnone
    exact ⟨registration, reason, resumeInput, now, lease, w, known, receipt, run,
      by rw [← hid]; exact heq.symm, hid, hnew⟩

/-- **One immutable wake.**  In every state that the operations reach from a new database, in
any order and from any number of processes: a wake that succeeds here and one that succeeds
later for the same timer answer the same reason and the same input; a wake receipt is recorded
by `wake` only, and for `timer_due` not before the earlier of the due time and the deadline;
states only move forward; a wake receipt exists exactly for the timers that left `pending`
through `wake`; and `verify_invocation` accepts the state. -/
theorem timer_one_immutable_wake (hsv : Reliable sv) {s₀ : TimerStore} (h₀ : Initial s₀)
    (hrun : Steps sv fp s₀ s) :
    (∀ registration reason resumeInput now lease w s₁,
      (wake sv registration reason resumeInput now lease).run s = .ok (w, s₁) →
      ∀ s₂, Steps sv fp s₁ s₂ → ∀ registration' reason' resumeInput' now' lease' w' s₃,
        registration'.identity = registration.identity →
        (wake sv registration' reason' resumeInput' now' lease').run s₂ = .ok (w', s₃) →
        w'.reason = w.reason ∧ w'.resumeInput = w.resumeInput) ∧
    (∀ (s' : TimerStore) (identity : EffectIdentity), Step sv fp s s' →
      s.journal.effects.lookup (sv.journal.key identity.wake) = none →
      s'.journal.effects.lookup (sv.journal.key identity.wake) ≠ none →
      ∃ registration reason resumeInput now lease w known,
        (wake sv registration reason resumeInput now lease).run s = .ok (w, s') ∧
        registration.identity.wake = identity.wake ∧ w.reason = reason ∧
        readTimer sv registration.identity s = .ok (some known) ∧
        known.wakeAt = known.deadlineAt.elim known.dueAt (min known.dueAt) ∧
        (w.reason = .timerDue → known.wakeAt ≤ now)) ∧
    (∀ s' key row, Step sv fp s s' → s.timers.lookup key = some row →
      ∃ row', s'.timers.lookup key = some row' ∧ Moves row.state row'.state) ∧
    (∀ identity : EffectIdentity, identity.operation = armOperation →
      (s.journal.effects.lookup (sv.journal.key identity.wake) ≠ none ↔
        ∃ row, s.timers.lookup (sv.journal.key identity) = some row ∧ row.left = some .wake)) ∧
    ∀ invocationId,
      (verifyInvocation sv invocationId (fp invocationId)).run s = .ok ((), s) := by
  have hb : Books sv fp s := Steps.books hsv hrun h₀.books
  refine ⟨?_, ?_, fun s' key row hstep hrow => hstep.moves hsv hrow, ?_, ?_⟩
  · intro registration reason resumeInput now lease w s₁ hwake s₂ hsteps registration' reason'
      resumeInput' now' lease' w' s₃ hid hwake'
    -- the first answer is a recorded decision, and the later one reads the same decision
    obtain ⟨known, receipt, hrec, hvalue⟩ := wake_recorded hsv hb hwake
    have hb₁ : Books sv fp s₁ := (Step.wake hwake).books hsv hb
    have hb₂ : Books sv fp s₂ := Steps.books hsv hsteps hb₁
    have hlast : Step sv fp s₂ s₃ := Step.wake hwake'
    have hrec₃ := hlast.recorded hsv (isTimer_wake _)
      (Steps.recorded hsv hsteps (isTimer_wake _) hrec)
    obtain ⟨known', receipt', hrec', hvalue'⟩ := wake_recorded hsv hb₂ hwake'
    rw [hid] at hrec'
    obtain rfl := hrec'.read_eq hsv (isTimer_wake _) (hrec₃.read hsv (isTimer_wake _))
    exact wakeValue_agree hvalue hvalue'
  · intro s' identity hstep hnone hsome
    obtain ⟨registration, reason, resumeInput, now, lease, w, known, receipt, run, hid, hknown,
      hnew⟩ := hstep.records_wake hsv hnone hsome
    have hread : readTimer sv registration.identity s = .ok (some known) := by
      rw [← hknown]
      exact hnew.armed
    exact ⟨registration, reason, resumeInput, now, lease, w, known, run, hid, hnew.reason_eq, hread,
      readTimer_wakeAt hread, fun hr => hnew.eligible (hnew.reason_eq ▸ hr)⟩
  · intro identity hop
    constructor
    · intro hne
      obtain ⟨row, hrow, hid⟩ := hb.wakes identity.wake rfl hne
      have hbooks := hb.rows _ row hrow
      have heq := eq_of_wake_eq (hbooks.operation.trans hop.symm) hid
      refine ⟨row, by rw [← heq]; exact hrow, ?_⟩
      by_contra hl
      rw [← hid] at hne
      exact hne (hbooks.unwoken hl)
    · rintro ⟨row, hrow, hleft⟩
      have hbooks := hb.rows _ row hrow
      have heq : row.payload.identity = identity := (hsv.key_injective hbooks.key_eq).symm
      obtain ⟨a, receipt, -, -, hw⟩ := hbooks.armed
      obtain ⟨wakeReceipt, w, hrec, -⟩ := hw hleft
      rw [← heq, hrec.effect]
      simp
  · intro invocationId
    exact verifyInvocation_eq_ok.mpr ⟨hb.checkInvocation hsv invocationId, rfl⟩

end Results

end Wakes

/-! ## A timer that a dispatcher and a manual resume race for -/

namespace Race

/-- Services whose keys are the texts of identities. -/
def services : TimerServices where
  journal := { JournalServices.permissive with key := EffectIdentity.text }
  digest _ _ := String.ofList (List.replicate 64 'a')
  maxPending := 1000
  maxPending_pos := by decide

theorem reliable : Reliable services where
  key_injective := EffectIdentity.text_injective
  verifies _ _ _ _ _ := rfl

/-- A new database. -/
def empty : TimerStore where
  journal :=
    { runtime := ⟨⟨0, ∅⟩, ∅, ∅, ∅, []⟩
      effects := ∅
      effectInvocations := ∅
      childBindings := ∅
      dispatched := [] }
  timers := ∅

/-- The wait of a run. -/
def identity : EffectIdentity where
  invocationId := "run"
  workflowFingerprint := "workflow"
  taskReference := "wait"
  occurrence := [("wait", 1)]
  operation := armOperation
  named := by decide
  placed := by decide

/-- Armed at 100 for ten seconds, with a deadline at 105. -/
def request : ArmRequest where
  duration := 10
  now := 100
  workflowSource := [("do", .arr [])]
  deadlineAt := some 105

/-- The dispatcher wakes the timer at its deadline, and a resume request comes late. -/
def race : Transaction OwaError TimerStore (TimerWake × TimerWake) := do
  let registration ← arm services identity request none
  let first ← wake services registration .timerDue .null 105 none
  let second ← wake services registration .resumeRequested (.str "go") 106 none
  return (first, second)

theorem race_commits : (race.answer empty).isOk = true := by decide +kernel

end Race

/-- In the race above both calls succeed, the later one with the earlier one's reason, and the
state that they leave is verified. -/
theorem timer_one_immutable_wake_race :
    ∃ first second s s', Race.race.run Race.empty = .ok ((first, second), s) ∧
      second.reason = first.reason ∧ second.resumeInput = first.resumeInput ∧
      (verifyInvocation Race.services "run" "workflow").run s' = .ok ((), s') ∧
      ∃ registration, (wake Race.services registration .timerDue .null 105 none).run s' =
        .ok (first, s) := by
  have hok := Race.race_commits
  unfold answer at hok
  cases hrace : Race.race.run Race.empty with
  | error =>
    rw [hrace] at hok
    cases hok
  | ok r =>
    obtain ⟨⟨first, second⟩, s⟩ := r
    have hparts := hrace
    simp only [Race.race, run_eq_ok, Prod.mk.injEq] at hparts
    obtain ⟨registration, s₁, harm, first', s₂, hfirst, second', s₃, hsecond, ⟨rfl, rfl⟩,
      rfl⟩ := hparts
    have hstep : Step Race.services (fun _ => "workflow") Race.empty s₁ := Step.arm rfl harm
    have hinitial : Initial Race.empty := ⟨rfl, rfl, rfl⟩
    have hresult := timer_one_immutable_wake Race.reliable hinitial
      (Relation.ReflTransGen.single hstep)
    obtain ⟨hsame, -, -, -, hverify⟩ := hresult
    have hanswers := hsame _ _ _ _ _ _ _ hfirst s₂ .refl _ _ _ _ _ _ _ rfl hsecond
    -- the late call only read, so both leave the same state
    have hstill : s₃ = s₂ := by
      obtain ⟨known, hid, -, ⟨hs, -⟩ | ⟨receipt, hnew⟩⟩ := wake_eq_ok hsecond
      · exact hs
      · have hbooks := Steps.books Race.reliable (Relation.ReflTransGen.single hstep)
          hinitial.books
        obtain ⟨-, receipt', hrec, -⟩ := wake_recorded Race.reliable hbooks hfirst
        have hnone := hnew.unrecorded
        rw [hid, hrec.effect] at hnone
        cases hnone
    subst hstill
    exact ⟨first', second', s₃, s₁, rfl, hanswers.1, hanswers.2, hverify "run", registration,
      hfirst⟩

end Timers
