/-
# Execution ownership

`ownership.py`: expiring execution leases on the clock of the common datasource.
One row per invocation names the current owner, a generation and an expiry.  A
worker takes the row over when it has expired (`acquire`, one generation up),
extends it (`renew`), gives it back (`release`, the generation is kept so that an
old lease never fits again), or checks it (`verify`).  Every guarded write
evaluates `writeGuard` in its own transaction (`ownedWriteTransaction`).

The datasource's clock is part of the store; each statement reads it once.
Times are exact rationals, in seconds.
-/
import OpenWorkflowAgent.Transactions
import OpenWorkflowAgent.Tables
import OpenWorkflowAgent.Values

open Transaction

/-- An execution lease.  `__post_init__` refuses to build any other value. -/
structure ExecutionLease where
  invocationId : String
  engine : String
  workflowFingerprint : String
  owner : String
  generation : ℕ
  expiresAt : ℚ
  named : invocationId ≠ "" ∧ engine ≠ "" ∧ workflowFingerprint ≠ "" ∧ owner ≠ ""
  generation_pos : 1 ≤ generation
  expires_pos : 0 < expiresAt
  owner_hex : isUuidHex owner = true
  deriving DecidableEq

/-- A row of `invocation_ownership`, without its key. -/
structure OwnershipRow where
  engine : String
  fingerprint : String
  owner : String
  generation : ℕ
  expiresAt : ℚ
  deriving DecidableEq

/-- The ownership table and the clock of its datasource. -/
structure OwnershipStore where
  clock : ℚ
  ownership : Table String OwnershipRow

namespace Ownership

/-- The longest lease, in seconds. -/
def maxDuration : ℚ := 3600

/-- `_live_expiry`: not expired, and not further ahead than any lease can be. -/
def liveExpiry (clock : ℚ) (row : OwnershipRow) : Prop :=
  clock < row.expiresAt ∧ row.expiresAt ≤ clock + maxDuration

instance (clock : ℚ) (row : OwnershipRow) : Decidable (liveExpiry clock row) :=
  inferInstanceAs (Decidable (_ ∧ _))

/-- The row carries the identity of the lease (`_identity`, without the key). -/
def rowOf (lease : ExecutionLease) (row : OwnershipRow) : Prop :=
  row.engine = lease.engine ∧ row.fingerprint = lease.workflowFingerprint ∧
    row.owner = lease.owner ∧ row.generation = lease.generation

instance (lease : ExecutionLease) (row : OwnershipRow) : Decidable (rowOf lease row) :=
  inferInstanceAs (Decidable (_ ∧ _))

/-- `_write_guard`: the live row of the lease, if it is stored. -/
def guardedRow (lease : ExecutionLease) (s : OwnershipStore) : Option OwnershipRow :=
  (s.ownership.lookup lease.invocationId).filter fun row =>
    rowOf lease row ∧ liveExpiry s.clock row

def writeGuard (lease : ExecutionLease) (s : OwnershipStore) : Bool :=
  (guardedRow lease s).isSome

/-- `_lease`: the lease of a stored row; the constructor of `ExecutionLease`
raises on any other row. -/
def leaseOfRow (invocationId : String) (row : OwnershipRow) : Except OwaError ExecutionLease :=
  if hn : invocationId ≠ "" ∧ row.engine ≠ "" ∧ row.fingerprint ≠ "" ∧ row.owner ≠ "" then
    if hg : 1 ≤ row.generation then
      if he : 0 < row.expiresAt then
        if ho : isUuidHex row.owner = true then
          .ok ⟨invocationId, row.engine, row.fingerprint, row.owner, row.generation,
            row.expiresAt, hn, hg, he, ho⟩
        else .error (.plain .valueError "invalid execution ownership record")
      else .error (.plain .valueError "invalid execution ownership record")
    else .error (.plain .valueError "invalid execution ownership record")
  else .error (.plain .valueError "invalid execution ownership record")

/-- `_duration`. -/
def checkDuration (seconds : ℚ) : Transaction OwaError OwnershipStore Unit :=
  raiseIf (¬ (0 < seconds ∧ seconds ≤ maxDuration))
    (.plain .valueError "execution ownership duration must be finite and bounded")

/-- The row that `acquire` writes: the first one, or the takeover of an expired
row of the same execution. -/
def acquiredRow (engine fingerprint owner : String) (clock seconds : ℚ) :
    Option OwnershipRow → Option OwnershipRow
  | none => some ⟨engine, fingerprint, owner, 1, clock + seconds⟩
  | some row =>
    if row.expiresAt ≤ clock ∧ row.engine = engine ∧ row.fingerprint = fingerprint ∧
        0 < row.generation then
      some { row with
        owner := owner, generation := row.generation + 1, expiresAt := clock + seconds }
    else none

/-- `acquire` for the invocation of a handle; `owner` is the fresh `uuid4().hex`. -/
def acquire (invocationId engine fingerprint owner : String) (seconds : ℚ) :
    Transaction OwaError OwnershipStore ExecutionLease := do
  checkDuration seconds
  raiseIf (invocationId = "" ∨ engine = "" ∨ fingerprint = "")
    (.plain .valueError "execution ownership requires invocation identity")
  let clock ← read OwnershipStore.clock
  let stored ← read fun s => s.ownership.lookup invocationId
  let row ← orRaise (acquiredRow engine fingerprint owner clock seconds stored)
    (.plain .invocationStateConflict "invocation execution ownership is unavailable")
  let lease ← mapError
    (fun _ => (.plain .workflowExecutionError "execution ownership could not be acquired"))
    (orRaiseError (leaseOfRow invocationId row))
  write fun s => { s with ownership := s.ownership.put invocationId row }
  return lease

/-- `renew`: extend the live row of the lease. -/
def renew (lease : ExecutionLease) (seconds : ℚ) :
    Transaction OwaError OwnershipStore ExecutionLease := do
  checkDuration seconds
  let clock ← read OwnershipStore.clock
  let stored ← read (guardedRow lease)
  let row ← orRaise stored
    (.plain .invocationStateConflict "invocation execution ownership has expired or changed")
  let renewed ← mapError
    (fun _ => (.plain .workflowExecutionError "execution ownership could not be renewed"))
    (orRaiseError (leaseOfRow lease.invocationId { row with expiresAt := clock + seconds }))
  write fun s => { s with
    ownership := s.ownership.put lease.invocationId { row with expiresAt := clock + seconds } }
  return renewed

/-- `verify`: the lease is the live one. -/
def verify (lease : ExecutionLease) : Transaction OwaError OwnershipStore Unit := do
  let stored ← read (guardedRow lease)
  let row ← orRaise stored
    (.plain .invocationStateConflict "invocation execution ownership has expired or changed")
  let current ← mapError
    (fun _ => (.plain .workflowExecutionError "execution ownership could not be verified"))
    (orRaiseError (leaseOfRow lease.invocationId row))
  raiseIf ({ current with expiresAt := lease.expiresAt, expires_pos := lease.expires_pos } ≠ lease)
    (.plain .invocationStateConflict "invocation execution ownership has expired or changed")

/-- `release`: expire the live row of the lease.  The generation is retained. -/
def release (lease : ExecutionLease) : Transaction OwaError OwnershipStore Unit := do
  let stored ← read (guardedRow lease)
  let row ← orRaise stored
    (.plain .invocationStateConflict "invocation execution ownership has expired or changed")
  write fun s => { s with
    ownership := s.ownership.put lease.invocationId { row with expiresAt := 0 } }

/-- The checks that `owned_write_transaction` makes before it yields to the body. -/
def enterOwned {σ : Type} (owners : σ → OwnershipStore) (lease : Option ExecutionLease)
    (invocationId fingerprint : String) : Transaction OwaError σ Unit := do
  match lease with
  | none => pure ()
  | some lease =>
    raiseIf (lease.invocationId ≠ invocationId ∨ lease.workflowFingerprint ≠ fingerprint)
      (.plain .invocationStateConflict "invocation execution ownership is inconsistent")
    let held ← read fun s => writeGuard lease (owners s)
    raiseIf (held = false)
      (.plain .invocationStateConflict "invocation execution ownership was lost")

/-- `owned_write_transaction`: a body that commits only under the guard of the
lease.  Without a lease the body just runs. -/
def ownedWriteTransaction {σ α : Type} (owners : σ → OwnershipStore)
    (lease : Option ExecutionLease) (invocationId fingerprint : String)
    (body : Transaction OwaError σ α) : Transaction OwaError σ α := do
  enterOwned owners lease invocationId fingerprint
  body

/-! ## What each operation commits -/

variable {lease : ExecutionLease} {s : OwnershipStore}

theorem guardedRow_eq_some {row : OwnershipRow} :
    guardedRow lease s = some row ↔
      s.ownership.lookup lease.invocationId = some row ∧ rowOf lease row ∧
        liveExpiry s.clock row := by
  unfold guardedRow
  rw [Option.filter_eq_some_iff, decide_eq_true_eq]

theorem writeGuard_iff :
    writeGuard lease s = true ↔ ∃ row, s.ownership.lookup lease.invocationId = some row ∧
      rowOf lease row ∧ liveExpiry s.clock row := by
  unfold writeGuard
  rw [Option.isSome_iff_exists]
  simp only [guardedRow_eq_some]

variable {invocationId : String}

theorem leaseOfRow_eq_ok {row : OwnershipRow} (h : leaseOfRow invocationId row = .ok lease) :
    lease.invocationId = invocationId ∧ rowOf lease row ∧ lease.expiresAt = row.expiresAt := by
  unfold leaseOfRow at h
  split at h
  · split at h
    · split at h
      · split at h
        · cases h
          exact ⟨rfl, ⟨rfl, rfl, rfl, rfl⟩, rfl⟩
        · cases h
      · cases h
    · cases h
  · cases h

variable {fingerprint : String} {s' : OwnershipStore}

theorem acquire_eq_ok {engine owner : String} {seconds : ℚ}
    (h : (acquire invocationId engine fingerprint owner seconds).run s = .ok (lease, s')) :
    0 < seconds ∧ seconds ≤ maxDuration ∧
      ∃ row, acquiredRow engine fingerprint owner s.clock seconds
          (s.ownership.lookup invocationId) = some row ∧
        leaseOfRow invocationId row = .ok lease ∧
        s' = { s with ownership := s.ownership.put invocationId row } := by
  simp only [acquire, checkDuration, run_eq_ok, mapError_eq_ok, not_not] at h
  obtain ⟨⟨hpos, hmax⟩, -, row, hrow, _, hlease, rfl, rfl⟩ := h
  exact ⟨hpos, hmax, row, hrow, hlease, rfl⟩

theorem renew_eq_ok {renewed : ExecutionLease} {seconds : ℚ}
    (h : (renew lease seconds).run s = .ok (renewed, s')) :
    0 < seconds ∧ seconds ≤ maxDuration ∧
      ∃ row, guardedRow lease s = some row ∧
        leaseOfRow lease.invocationId { row with expiresAt := s.clock + seconds } = .ok renewed ∧
        s' = { s with ownership :=
          s.ownership.put lease.invocationId { row with expiresAt := s.clock + seconds } } := by
  simp only [renew, checkDuration, run_eq_ok, mapError_eq_ok, not_not] at h
  obtain ⟨⟨hpos, hmax⟩, row, hrow, _, hlease, rfl, rfl⟩ := h
  exact ⟨hpos, hmax, row, hrow, hlease, rfl⟩

theorem release_eq_ok (h : (release lease).run s = .ok ((), s')) :
    ∃ row, guardedRow lease s = some row ∧
      s' = { s with
        ownership := s.ownership.put lease.invocationId { row with expiresAt := 0 } } := by
  simp only [release, run_eq_ok] at h
  obtain ⟨row, hrow, rfl⟩ := h
  exact ⟨row, hrow, rfl⟩

theorem enterOwned_eq_ok {σ : Type} {owners : σ → OwnershipStore} {lease : Option ExecutionLease}
    {s s' : σ} {u : Unit} :
    (enterOwned owners lease invocationId fingerprint).run s = .ok (u, s') ↔
      s = s' ∧ ∀ l, lease = some l → l.invocationId = invocationId ∧
        l.workflowFingerprint = fingerprint ∧ writeGuard l (owners s) = true := by
  cases lease with
  | none =>
    simp only [enterOwned, pure_eq_ok, reduceCtorEq, false_implies, implies_true, and_true,
      true_and]
  | some l =>
    simp only [enterOwned, run_eq_ok, Option.some.injEq, forall_eq', not_or, not_not,
      Bool.not_eq_false]
    constructor
    · rintro ⟨⟨hid, hfp⟩, hguard, rfl⟩
      exact ⟨rfl, hid, hfp, hguard⟩
    · rintro ⟨rfl, hid, hfp, hguard⟩
      exact ⟨⟨hid, hfp⟩, hguard, rfl⟩

theorem ownedWriteTransaction_eq_ok {σ α : Type} {owners : σ → OwnershipStore}
    {lease : Option ExecutionLease} {body : Transaction OwaError σ α} {s : σ} {r : α × σ} :
    (ownedWriteTransaction owners lease invocationId fingerprint body).run s = .ok r ↔
      (∀ l, lease = some l → l.invocationId = invocationId ∧
        l.workflowFingerprint = fingerprint ∧ writeGuard l (owners s) = true) ∧
      body.run s = .ok r := by
  unfold ownedWriteTransaction
  rw [bind_eq_ok]
  constructor
  · rintro ⟨_, _, henter, hbody⟩
    obtain ⟨rfl, hl⟩ := enterOwned_eq_ok.mp henter
    exact ⟨hl, hbody⟩
  · rintro ⟨hl, hbody⟩
    exact ⟨(), s, enterOwned_eq_ok.mpr ⟨rfl, hl⟩, hbody⟩

end Ownership
