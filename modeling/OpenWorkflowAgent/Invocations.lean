/-
# Invocation records

`persistence.py` and the tables of `lifecycle.py`: the common record of one
workflow invocation, the in-memory handle that a process holds on it, and the
operations of `InvocationStore`.

A handle remembers the exact snapshot it was loaded from.  Every write is a
compare-and-set over that snapshot, and every snapshot carries a fresh revision,
so two snapshots never agree by accident.  A record that reaches a terminal
status gets a row of `invocation_terminal_times` in the same transaction.

The saved payload is modelled as the record and the revision its text encodes
(`json.dumps` of a valid payload is injective); `sha256` is a parameter.  The store
carries one auxiliary field that the source does not have: `history`, the log of
all snapshots ever committed, newest first, which no operation reads.
-/
import OpenWorkflowAgent.Interleavings
import OpenWorkflowAgent.Ownership

open Transaction

/-! ## Lifecycle -/

/-- `INVOCATION_STATES`. -/
inductive InvocationStatus where
  | running
  | waiting
  | completed
  | faulted
  | cancelled
  deriving DecidableEq, Repr

namespace InvocationStatus

/-- `TERMINAL_INVOCATION_STATES`. -/
def terminal : InvocationStatus → Bool
  | .running | .waiting => false
  | .completed | .faulted | .cancelled => true

/-- `VALID_INVOCATION_TRANSITIONS`. -/
def validTransitions : InvocationStatus → List InvocationStatus
  | .running => [.running, .waiting, .completed, .faulted, .cancelled]
  | .waiting => [.waiting, .running, .faulted, .cancelled]
  | .completed => [.completed]
  | .faulted => [.faulted]
  | .cancelled => [.cancelled]

def text : InvocationStatus → String
  | .running => "running"
  | .waiting => "waiting"
  | .completed => "completed"
  | .faulted => "faulted"
  | .cancelled => "cancelled"

theorem cancelled_mem_validTransitions {s : InvocationStatus} (h : s.terminal = false) :
    InvocationStatus.cancelled ∈ s.validTransitions := by
  cases s <;> simp_all [terminal, validTransitions]

end InvocationStatus

/-! ## Records, snapshots and handles -/

/-- The public fields of a handle that never change. -/
structure InvocationIdentity where
  invocationId : String
  engine : String
  engineExecutionReference : String
  userId : Option String
  sessionId : String
  workflowName : String
  workflowVersion : String
  workflowFingerprint : String
  parentInvocationId : Option String
  parentTaskReference : Option String
  ownerPrincipal : Option String
  deriving DecidableEq, Repr

/-- The public fields of a handle.  A missing error is `Json.null`. -/
structure InvocationRecord where
  identity : InvocationIdentity
  status : InvocationStatus
  output : Json
  error : Json
  deriving DecidableEq, Repr

/-- A saved payload: the record and its `_revision`. -/
structure Snapshot where
  record : InvocationRecord
  revision : String
  deriving DecidableEq, Repr

def Snapshot.invocationId (s : Snapshot) : String := s.record.identity.invocationId

/-- An `ExecutionHandle`: the public fields and the private bookkeeping. -/
structure ExecutionHandle where
  record : InvocationRecord
  persistedPayload : Option Snapshot
  executionLease : Option ExecutionLease
  deriving DecidableEq

/-! ## Tables -/

/-- A row of `invocations`. -/
structure InvocationRow where
  payload : Snapshot
  status : InvocationStatus
  deriving DecidableEq, Repr

/-- A row of `invocation_inputs`. -/
structure InputRow where
  fingerprint : String
  payload : Json
  deriving DecidableEq, Repr

/-- A row of `invocation_terminal_times`. -/
structure TerminalTime where
  profile : String
  fingerprint : String
  status : InvocationStatus
  completedAt : ℚ
  snapshotDigest : String
  deriving DecidableEq, Repr

/-- The common runtime tables. -/
structure RuntimeStore where
  owners : OwnershipStore
  invocations : Table String InvocationRow
  inputs : Table String InputRow
  terminalTimes : Table String TerminalTime
  /-- Auxiliary: every snapshot ever committed, newest first. -/
  history : List Snapshot

namespace Invocations

/-! ## Encoding -/

/-- `validate_expression_data` accepts the payload: its values stand one level
below the payload object. -/
def validRecord (record : InvocationRecord) : Bool :=
  record.output.validAt 1 && record.error.validAt 1

/-- `_encode_handle`; `revision` is the fresh `uuid4().hex`. -/
def encodeHandle (record : InvocationRecord) (revision : String) : Except OwaError Snapshot :=
  if validRecord record then .ok ⟨record, revision⟩ else .error invalidExpressionData

/-- `_decode_payload`. -/
def decodePayload (encoded : Snapshot) : Except OwaError InvocationRecord :=
  if validRecord encoded.record = false then .error invalidExpressionData
  else if isUuidHex encoded.revision = false then
    .error (.plain .valueError "invalid invocation revision")
  else .ok encoded.record

/-- `_verify_identity`. -/
def verifyIdentity (handle payload : InvocationRecord) : Except OwaError Unit :=
  if handle.identity = payload.identity then .ok ()
  else .error (.plain .invocationStateError "invocation identity cannot be changed")

/-! ## Reading -/

/-- `get`: the handle of a stored row, after its columns are checked. -/
def getInvocation (invocationId : String) :
    Transaction OwaError RuntimeStore (Option ExecutionHandle) := do
  match ← read fun s => s.invocations.lookup invocationId with
  | none => return none
  | some row =>
    mapError
      (fun _ => (.plain .workflowExecutionError "invocation state could not be recovered")) do
      let record ← orRaiseError (decodePayload row.payload)
      raiseIf (record.identity.invocationId ≠ invocationId ∨ record.status ≠ row.status)
        (.plain .valueError "invocation columns disagree")
      return some ⟨record, some row.payload, none⟩

/-- The error of a writer whose snapshot is no longer the stored one. -/
def stateHasChanged : OwaError :=
  .plain .invocationStateConflict "invocation state has changed; reload before retry"

/-- `refresh`: reload the handle of this process. -/
def refresh (terminalOnly : Bool) : Procedure OwaError ExecutionHandle RuntimeStore Unit := do
  let handle ← get
  let found ← Procedure.transaction (getInvocation handle.record.identity.invocationId)
  let current ← orRaise found
    (.plain .workflowExecutionError "invocation state could not be recovered")
  orRaiseError (verifyIdentity handle.record current.record)
  raiseIf (terminalOnly = true ∧ current.record.status.terminal = false) stateHasChanged
  set { handle with
    record := current.record, persistedPayload := current.persistedPayload }

/-! ## Writing -/

section Writing

variable (sha256 : Snapshot → String)

/-- The row of `invocation_terminal_times` for a terminal snapshot. -/
def terminalTimeOf (encoded : Snapshot) (instant : ℚ) : TerminalTime :=
  ⟨"owa/terminal-time/v1", encoded.record.identity.workflowFingerprint, encoded.record.status,
    instant, sha256 encoded⟩

/-- `_record_terminal_time`; `instant` is the given completion time, or the host
clock when none is given. -/
def recordTerminalTime (encoded : Snapshot) (instant : ℚ) :
    Transaction OwaError RuntimeStore Unit := do
  raiseIf (instant ≤ 0) (.plain .invocationStateError "terminal completion timestamp is invalid")
  let existing ← read fun s => s.terminalTimes.lookup encoded.invocationId
  raiseIf (existing ≠ none ∧ existing ≠ some (terminalTimeOf sha256 encoded instant))
    (.plain .invocationStateConflict "terminal completion timestamp already disagrees")
  write fun s => { s with
    terminalTimes :=
      s.terminalTimes.insertNew encoded.invocationId (terminalTimeOf sha256 encoded instant) }

def recordIfTerminal (encoded : Snapshot) (instant : ℚ) :
    Transaction OwaError RuntimeStore Unit :=
  if encoded.record.status.terminal then recordTerminalTime sha256 encoded instant else pure ()

def storeSnapshot (encoded : Snapshot) (s : RuntimeStore) : RuntimeStore :=
  { s with
    invocations := s.invocations.put encoded.invocationId ⟨encoded, encoded.record.status⟩
    history := encoded :: s.history }

/-- The fields that an `update` replaces. -/
structure Changes where
  identity : Option InvocationIdentity
  status : Option InvocationStatus
  output : Option Json
  error : Option Json
  deriving DecidableEq

/-- `replace(handle, **known_changes)`, on the public fields. -/
def Changes.apply (changes : Changes) (record : InvocationRecord) : InvocationRecord where
  identity := changes.identity.getD record.identity
  status := changes.status.getD record.status
  output := changes.output.getD record.output
  error := changes.error.getD record.error

/-- The lease of a handle is about the handle's own execution. -/
def leaseMatches (lease : ExecutionLease) (identity : InvocationIdentity) : Bool :=
  lease.invocationId = identity.invocationId ∧ lease.engine = identity.engine ∧
    lease.workflowFingerprint = identity.workflowFingerprint

/-- The guarded compare-and-set of `update`, with its terminal time. -/
def compareAndSet (handle : ExecutionHandle) (expected : Snapshot) (candidate : InvocationRecord)
    (revision : String) (instant : ℚ) : Transaction OwaError RuntimeStore Snapshot :=
  mapError
    (fun e => if e.kind = .invocationStateConflict then e
      else (.plain .workflowExecutionError "invocation state could not be stored")) do
    let encoded ← orRaiseError (encodeHandle candidate revision)
    raiseIf (handle.executionLease.any (fun l => !leaseMatches l handle.record.identity))
      (.plain .invocationStateConflict "invocation execution ownership is inconsistent")
    let row ← read fun s => s.invocations.lookup candidate.identity.invocationId
    let held ← read fun s =>
      handle.executionLease.all fun l => Ownership.writeGuard l s.owners
    raiseIf (row ≠ some ⟨expected, expected.record.status⟩ ∨ held = false) stateHasChanged
    write (storeSnapshot encoded)
    recordIfTerminal sha256 encoded instant
    return encoded

def invalidTransition (before requested : InvocationStatus) : OwaError :=
  ⟨.invocationStateError,
    "invalid invocation transition: " ++ before.text ++ " -> " ++ requested.text,
    [("from", .str before.text), ("to", .str requested.text)]⟩

/-- `update` of the handle of this process. -/
def update (changes : Changes) (revision : String) (instant : ℚ) :
    Procedure OwaError ExecutionHandle RuntimeStore Unit := do
  let handle ← get
  let expected ← orRaise handle.persistedPayload
    (.plain .invocationStateError "invocation handle must be loaded before writing")
  let original ← orRaiseError (decodePayload expected)
  orRaiseError (verifyIdentity handle.record original)
  let requested := changes.status.getD handle.record.status
  raiseIf (requested ∉ original.status.validTransitions)
    (invalidTransition handle.record.status requested)
  let candidate := changes.apply handle.record
  orRaiseError (verifyIdentity candidate original)
  if original.status.terminal then
    let current ← Procedure.transaction (getInvocation handle.record.identity.invocationId)
    raiseIf (current.bind ExecutionHandle.persistedPayload ≠ some expected) stateHasChanged
    refresh true
  else
    let encoded ← Procedure.transaction
      (compareAndSet sha256 handle expected candidate revision instant)
    -- the handle changes only after the commit
    set { handle with record := candidate, persistedPayload := some encoded }

/-- What `_cancel_controlled` checks of a parent that controls the child. -/
def verifyParentControl (handle : ExecutionHandle) (parent : Option ExecutionHandle) :
    Except OwaError Unit :=
  match parent with
  | none => pure ()
  | some parent => do
      let payload ← orRaise parent.persistedPayload
        (.plain .invocationStateError "parent handle must be loaded before control")
      let original ← decodePayload payload
      verifyIdentity parent.record original
      let child := handle.record.identity
      let control := parent.record.identity
      raiseIf (child.invocationId = control.invocationId ∨
          child.parentInvocationId ≠ some control.invocationId ∨
          child.engine ≠ control.engine ∨ child.ownerPrincipal ≠ control.ownerPrincipal ∨
          child.userId ≠ control.userId ∨ child.sessionId = control.sessionId)
        (.plain .invocationStateConflict "child control identity is inconsistent")

/-- The parent of a controlled child, if there is one, is still the loaded, active
one. -/
def checkParentRow (parent : Option ExecutionHandle) : Transaction OwaError RuntimeStore Unit :=
  match parent with
  | none => pure ()
  | some parent => do
      let row ← read fun s => s.invocations.lookup parent.record.identity.invocationId
      raiseIf (¬ row.any (fun r => some r.payload = parent.persistedPayload ∧
          r.status.terminal = false))
        (.plain .invocationStateConflict "parent control state has changed")

/-- The ownership row of an execution, expired at once. -/
def revoked (identity : InvocationIdentity) (owners : OwnershipStore) : OwnershipStore where
  clock := owners.clock
  ownership := owners.ownership.updateWhere identity.invocationId
    (fun o => o.engine = identity.engine ∧ o.fingerprint = identity.workflowFingerprint)
    fun o => { o with expiresAt := 0 }

def revokeCancelled (identity : InvocationIdentity) (owned : Bool) (status : InvocationStatus) :
    Transaction OwaError RuntimeStore Unit :=
  if owned = true ∧ status = .cancelled then
    write fun s => { s with owners := revoked identity s.owners }
  else pure ()

/-- The record that stands after the control: a terminal one is adopted, an active
one is overwritten.  The compare-and-set of the source repeats the comparison with
the row read in the same transaction. -/
def cancelRecord (current : InvocationRecord) (stored expected : Snapshot)
    (original : InvocationRecord) (error : Json) (revision : String) (instant : ℚ) :
    Transaction OwaError RuntimeStore (InvocationRecord × Snapshot) :=
  if current.status.terminal then do
    raiseIf (original.status.terminal = true ∧ stored ≠ expected)
      (.plain .invocationStateConflict "terminal control state has changed")
    return (current, stored)
  else do
    raiseIf (stored ≠ expected)
      (.plain .invocationStateConflict "controlled invocation state has changed")
    let cancelled := { current with status := .cancelled, output := .null, error := error }
    let encoded ← orRaiseError (encodeHandle cancelled revision)
    write (storeSnapshot encoded)
    recordTerminalTime sha256 encoded instant
    return (cancelled, encoded)

/-- The body of the transaction of `_cancel_controlled`: the handle it answers is
the record that now stands. -/
def cancelBody (handle : ExecutionHandle) (expected : Snapshot) (original : InvocationRecord)
    (error : Json) (revision : String) (instant : ℚ) (parent : Option ExecutionHandle) :
    Transaction OwaError RuntimeStore (InvocationRecord × Snapshot) := do
  let identity := handle.record.identity
  checkParentRow parent
  let owner ← read fun s => s.owners.ownership.lookup identity.invocationId
  raiseIf (owner.any fun o =>
      !(o.engine = identity.engine ∧ o.fingerprint = identity.workflowFingerprint))
    (.plain .invocationStateConflict "controlled execution identity disagrees")
  let found ← getInvocation identity.invocationId
  let current ← orRaise found
    (.plain .invocationStateConflict "controlled invocation is absent")
  orRaiseError (verifyIdentity handle.record current.record)
  let stored ← orRaise current.persistedPayload
    (.plain .invocationStateConflict "controlled invocation is absent")
  let result ← cancelRecord sha256 current.record stored expected original error revision instant
  revokeCancelled identity owner.isSome result.1.status
  return result

/-- The transaction of `_cancel_controlled`: with a parent, owned by its lease. -/
def cancelTransaction (handle : ExecutionHandle) (expected : Snapshot)
    (original : InvocationRecord) (error : Json) (revision : String) (instant : ℚ)
    (parent : Option ExecutionHandle) (lease : Option ExecutionLease) :
    Transaction OwaError RuntimeStore (InvocationRecord × Snapshot) :=
  let body := cancelBody sha256 handle expected original error revision instant parent
  mapError
    (fun e => if e.kind = .invocationStateConflict ∨ e.kind = .invocationStateError then e
      else .plain .workflowExecutionError "invocation cancellation control could not be stored")
    (match parent with
      | none => body
      | some parent => Ownership.ownedWriteTransaction RuntimeStore.owners lease
          parent.record.identity.invocationId parent.record.identity.workflowFingerprint body)

/-- `_cancel_controlled`. -/
def cancelControlled (error : Json) (revision : String) (instant : ℚ)
    (parent : Option ExecutionHandle) (lease : Option ExecutionLease) :
    Procedure OwaError ExecutionHandle RuntimeStore Unit := do
  let handle ← get
  let expected ← orRaise handle.persistedPayload
    (.plain .invocationStateError "invocation handle must be loaded before control")
  let original ← orRaiseError (decodePayload expected)
  orRaiseError (verifyIdentity handle.record original)
  raiseIf (error.valid = false) invalidExpressionData
  orRaiseError (verifyParentControl handle parent)
  let result ← Procedure.transaction
    (cancelTransaction sha256 handle expected original error revision instant parent lease)
  set { handle with record := result.1, persistedPayload := some result.2 }

/-- `cancel_authoritatively`. -/
def cancelAuthoritatively (error : Json) (revision : String) (instant : ℚ) :
    Procedure OwaError ExecutionHandle RuntimeStore Unit :=
  cancelControlled sha256 error revision instant none none

/-- `cancel_under_parent_control`. -/
def cancelUnderParentControl (parent : ExecutionHandle) (lease : ExecutionLease) (error : Json)
    (revision : String) (instant : ℚ) :
    Procedure OwaError ExecutionHandle RuntimeStore Unit := do
  raiseIf (leaseMatches lease parent.record.identity = false)
    (.plain .invocationStateConflict "parent execution ownership is inconsistent")
  cancelControlled sha256 error revision instant (some parent) (some lease)

/-- `terminal_completed_at`: two reads, checked against each other. -/
def terminalCompletedAt : Procedure OwaError ExecutionHandle RuntimeStore ℚ := do
  let handle ← get
  tryCatch (do
      let found ← Procedure.transaction (getInvocation handle.record.identity.invocationId)
      let current ← orRaise found (.plain .valueError "invocation is not terminal")
      raiseIf (current.record.status.terminal = false)
        (.plain .valueError "invocation is not terminal")
      orRaiseError (verifyIdentity handle.record current.record)
      let row ← Procedure.transaction (read fun s =>
        s.terminalTimes.lookup handle.record.identity.invocationId)
      let value ← orRaise row (.plain .valueError "terminal timestamp is absent")
      let stored ← orRaise current.persistedPayload
        (.plain .valueError "terminal timestamp is absent")
      raiseIf (value.profile ≠ "owa/terminal-time/v1" ∨
          value.fingerprint ≠ current.record.identity.workflowFingerprint ∨
          value.status ≠ current.record.status ∨ value.snapshotDigest ≠ sha256 stored ∨
          value.completedAt ≤ 0)
        (.plain .valueError "terminal timestamp disagrees")
      pure value.completedAt)
    fun _ => throw (.plain .workflowExecutionError
      "terminal completion time is unavailable or inconsistent")

/-- `terminal_completed_at` inside a transaction of the caller, whose connection it
reads. -/
def terminalCompletedAtInTransaction (handle : InvocationRecord) :
    Transaction OwaError RuntimeStore ℚ :=
  mapError
    (fun _ => .plain .workflowExecutionError
      "terminal completion time is unavailable or inconsistent") do
    let found ← getInvocation handle.identity.invocationId
    let current ← orRaise found (.plain .valueError "invocation is not terminal")
    raiseIf (current.record.status.terminal = false)
      (.plain .valueError "invocation is not terminal")
    orRaiseError (verifyIdentity handle current.record)
    let row ← read fun s => s.terminalTimes.lookup handle.identity.invocationId
    let value ← orRaise row (.plain .valueError "terminal timestamp is absent")
    let stored ← orRaise current.persistedPayload
      (.plain .valueError "terminal timestamp is absent")
    raiseIf (value.profile ≠ "owa/terminal-time/v1" ∨
        value.fingerprint ≠ current.record.identity.workflowFingerprint ∨
        value.status ≠ current.record.status ∨ value.snapshotDigest ≠ sha256 stored ∨
        value.completedAt ≤ 0)
      (.plain .valueError "terminal timestamp disagrees")
    return value.completedAt

end Writing

/-! ## Creation -/

/-- The table of inputs with the input of a new invocation, if it has one. -/
def withInput (identity : InvocationIdentity) (input : Option Json)
    (inputs : Table String InputRow) : Table String InputRow :=
  match input with
  | none => inputs
  | some value => inputs.put identity.invocationId ⟨identity.workflowFingerprint, value⟩

def insertInput (identity : InvocationIdentity) (input : Option Json) :
    Transaction OwaError RuntimeStore Unit :=
  match input with
  | none => pure ()
  | some _ => do
      let bound ← read fun s => s.inputs.lookup identity.invocationId
      raiseIf (bound ≠ none) (.plain .storageError "duplicate invocation input")
      write fun s => { s with inputs := withInput identity input s.inputs }

/-- `create_in_transaction`: insert the first snapshot of an invocation and, if one
is given, its input.  `identity` carries the identifiers drawn for it; its
`invocationId` is the reserved one, if there is one. -/
def createInTransaction (identity : InvocationIdentity) (revision : String)
    (input : Option Json) (reserved : Option String) :
    Transaction OwaError RuntimeStore ExecutionHandle := do
  raiseIf (input.any fun v => !v.valid) invalidExpressionData
  raiseIf (reserved.any fun r => !isUuidText r)
    (.plain .invocationStateError "reserved invocation identity is invalid")
  let identity := { identity with invocationId := reserved.getD identity.invocationId }
  let encoded ← orRaiseError (encodeHandle ⟨identity, .running, .null, .null⟩ revision)
  let taken ← read fun s => s.invocations.lookup identity.invocationId
  raiseIf (taken ≠ none) (.plain .storageError "duplicate invocation")
  write (storeSnapshot encoded)
  insertInput identity input
  return ⟨encoded.record, some encoded, none⟩

/-! ## What each transaction commits -/

variable {revision : String} {encoded : Snapshot}

theorem encodeHandle_eq_ok {record : InvocationRecord} :
    encodeHandle record revision = .ok encoded ↔
      validRecord record = true ∧ encoded = ⟨record, revision⟩ := by
  unfold encodeHandle
  split
  · rename_i h
    simp [h, eq_comm]
  · rename_i h
    simp [h]

theorem decodePayload_eq_ok {record : InvocationRecord} :
    decodePayload encoded = .ok record ↔
      validRecord encoded.record = true ∧ isUuidHex encoded.revision = true ∧
        record = encoded.record := by
  unfold decodePayload
  cases hv : validRecord encoded.record <;> cases hu : isUuidHex encoded.revision <;>
    simp [eq_comm]

theorem verifyIdentity_eq_ok {handle payload : InvocationRecord} {u : Unit} :
    verifyIdentity handle payload = .ok u ↔ handle.identity = payload.identity := by
  unfold verifyIdentity
  split <;> simp_all

variable {s s' : RuntimeStore}

theorem getInvocation_eq_ok {invocationId : String} {found : Option ExecutionHandle}
    (h : (getInvocation invocationId).run s = .ok (found, s')) :
    s = s' ∧ ((s.invocations.lookup invocationId = none ∧ found = none) ∨
      ∃ row, s.invocations.lookup invocationId = some row ∧
        row.payload.invocationId = invocationId ∧ row.payload.record.status = row.status ∧
        found = some ⟨row.payload.record, some row.payload, none⟩) := by
  simp only [getInvocation, run_eq_ok] at h
  cases hrow : s.invocations.lookup invocationId with
  | none =>
    rw [hrow] at h
    obtain ⟨rfl, rfl⟩ := pure_eq_ok.mp h
    exact ⟨rfl, Or.inl ⟨rfl, rfl⟩⟩
  | some row =>
    simp only [hrow, mapError_eq_ok, run_eq_ok, decodePayload_eq_ok, not_or, not_not] at h
    obtain ⟨_, ⟨-, -, rfl⟩, ⟨hid, hst⟩, rfl, rfl⟩ := h
    exact ⟨rfl, Or.inr ⟨row, rfl, hid, hst, rfl⟩⟩

variable {sha256 : Snapshot → String} {instant : ℚ} {error : Json}

theorem terminalCompletedAtInTransaction_eq_ok {handle : InvocationRecord} {t : ℚ}
    (h : (terminalCompletedAtInTransaction sha256 handle).run s = .ok (t, s')) :
    s = s' ∧ 0 < t ∧ ∃ value, s.terminalTimes.lookup handle.identity.invocationId = some value ∧
      value.completedAt = t := by
  simp only [terminalCompletedAtInTransaction, mapError_eq_ok, run_eq_ok, not_or, not_le] at h
  obtain ⟨found, _, hget, current, -, -, -, value, hvalue, stored, -, hchecks, rfl, rfl⟩ := h
  obtain ⟨rfl, -⟩ := getInvocation_eq_ok hget
  exact ⟨rfl, hchecks.2.2.2.2, value, hvalue, rfl⟩

theorem getInvocation_run {invocationId : String} {row : InvocationRow}
    (hrow : s.invocations.lookup invocationId = some row)
    (hvalid : validRecord row.payload.record = true) (hrev : isUuidHex row.payload.revision = true)
    (hid : row.payload.invocationId = invocationId) (hst : row.payload.record.status = row.status) :
    (getInvocation invocationId).run s =
      .ok (some ⟨row.payload.record, some row.payload, none⟩, s) := by
  simp only [getInvocation, run_eq_ok, hrow, mapError_eq_ok, decodePayload_eq_ok, not_or, not_not]
  exact ⟨_, ⟨hvalid, hrev, rfl⟩, ⟨hid, hst⟩, rfl, trivial⟩

/-- The tables of records, terminal times and the history are the same. -/
structure Untouched (s s' : RuntimeStore) : Prop where
  invocations : s'.invocations = s.invocations
  terminalTimes : s'.terminalTimes = s.terminalTimes
  history : s'.history = s.history

/-- One snapshot was written over another one, with the terminal time it needs. -/
structure Overwrites (sha256 : Snapshot → String) (expected encoded : Snapshot) (instant : ℚ)
    (s s' : RuntimeStore) : Prop where
  stored : s.invocations.lookup encoded.invocationId =
    some ⟨expected, expected.record.status⟩
  active : expected.record.status.terminal = false
  transition : encoded.record.status ∈ expected.record.status.validTransitions
  identity : encoded.record.identity = expected.record.identity
  valid : validRecord encoded.record = true
  invocations : s'.invocations =
    s.invocations.put encoded.invocationId ⟨encoded, encoded.record.status⟩
  history : s'.history = encoded :: s.history
  terminalTimes : s'.terminalTimes =
    if encoded.record.status.terminal then
      s.terminalTimes.insertNew encoded.invocationId (terminalTimeOf sha256 encoded instant)
    else s.terminalTimes
  instant_pos : encoded.record.status.terminal = true → 0 < instant

/-- A first snapshot was inserted. -/
structure Creates (encoded : Snapshot) (s s' : RuntimeStore) : Prop where
  absent : s.invocations.lookup encoded.invocationId = none
  running : encoded.record.status = .running
  valid : validRecord encoded.record = true
  invocations : s'.invocations =
    s.invocations.put encoded.invocationId ⟨encoded, encoded.record.status⟩
  history : s'.history = encoded :: s.history
  terminalTimes : s'.terminalTimes = s.terminalTimes

/-- What a committed transaction of the invocation store did to the records. -/
inductive Commits (sha256 : Snapshot → String) (s s' : RuntimeStore) : Prop
  | untouched (h : Untouched s s')
  | created (encoded : Snapshot) (h : Creates encoded s s')
  | overwritten (expected encoded : Snapshot) (instant : ℚ)
      (h : Overwrites sha256 expected encoded instant s s')

theorem Commits.time_persists (h : Commits sha256 s s') {id : String} {t : TerminalTime}
    (ht : s.terminalTimes.lookup id = some t) : s'.terminalTimes.lookup id = some t := by
  cases h with
  | untouched hu =>
    rw [hu.terminalTimes]
    exact ht
  | created _ hc =>
    rw [hc.terminalTimes]
    exact ht
  | overwritten _ _ _ ho =>
    rw [ho.terminalTimes]
    split
    · exact Table.lookup_insertNew_of_some ht
    · exact ht

variable {u : Unit}

theorem recordTerminalTime_eq_ok
    (h : (recordTerminalTime sha256 encoded instant).run s = .ok (u, s')) :
    0 < instant ∧ s' = { s with
      terminalTimes := s.terminalTimes.insertNew encoded.invocationId
        (terminalTimeOf sha256 encoded instant) } := by
  simp only [recordTerminalTime, run_eq_ok, not_le] at h
  obtain ⟨hpos, -, rfl⟩ := h
  exact ⟨hpos, rfl⟩

theorem recordIfTerminal_eq_ok
    (h : (recordIfTerminal sha256 encoded instant).run s = .ok (u, s')) :
    (encoded.record.status.terminal = true → 0 < instant) ∧
      s' = { s with
        terminalTimes :=
          if encoded.record.status.terminal then
            s.terminalTimes.insertNew encoded.invocationId (terminalTimeOf sha256 encoded instant)
          else s.terminalTimes } := by
  unfold recordIfTerminal at h
  by_cases hterm : encoded.record.status.terminal = true
  · rw [if_pos hterm] at h
    obtain ⟨hpos, rfl⟩ := recordTerminalTime_eq_ok h
    exact ⟨fun _ => hpos, by rw [if_pos hterm]⟩
  · rw [if_neg hterm, pure_eq_ok] at h
    obtain ⟨-, rfl⟩ := h
    exact ⟨fun ht => absurd ht hterm, by rw [if_neg hterm]⟩

variable {handle : ExecutionHandle} {expected : Snapshot} {parent : Option ExecutionHandle}

/-- A committed compare-and-set writes the candidate over the expected snapshot. -/
theorem compareAndSet_eq_ok {candidate : InvocationRecord}
    (hactive : expected.record.status.terminal = false)
    (htrans : candidate.status ∈ expected.record.status.validTransitions)
    (hid : candidate.identity = expected.record.identity)
    (h : (compareAndSet sha256 handle expected candidate revision instant).run s
      = .ok (encoded, s')) :
    encoded = ⟨candidate, revision⟩ ∧ Overwrites sha256 expected encoded instant s s' := by
  simp only [compareAndSet, mapError_eq_ok, run_eq_ok, encodeHandle_eq_ok, not_or, not_not] at h
  obtain ⟨_, ⟨hvalid, rfl⟩, -, ⟨hrow, -⟩, _, htime, rfl, rfl⟩ := h
  obtain ⟨hpos, rfl⟩ := recordIfTerminal_eq_ok htime
  exact ⟨rfl, hrow, hactive, htrans, hid, hvalid, rfl, rfl, rfl, hpos⟩

theorem checkParentRow_eq_ok (h : (checkParentRow parent).run s = .ok (u, s')) :
    s = s' := by
  cases parent with
  | none => exact (pure_eq_ok.mp h).2
  | some =>
    simp only [checkParentRow, run_eq_ok] at h
    obtain ⟨_, -, -, rfl⟩ := h
    rfl

variable {original : InvocationRecord} {identity : InvocationIdentity}

theorem cancelRecord_eq_ok {stored : Snapshot} {result : InvocationRecord × Snapshot}
    (hrow : s.invocations.lookup stored.invocationId = some ⟨stored, stored.record.status⟩)
    (h : (cancelRecord sha256 stored.record stored expected original error revision instant).run s
      = .ok (result, s')) : result.1 = result.2.record ∧ s'.owners = s.owners ∧
      ((s = s' ∧ result.2 = stored ∧ stored.record.status.terminal = true) ∨
        (result.2.revision = revision ∧ result.2.record.status = .cancelled ∧
          result.2.record.identity = stored.record.identity ∧
          Overwrites sha256 expected result.2 instant s s')) := by
  unfold cancelRecord at h
  by_cases hterm : stored.record.status.terminal = true
  · simp only [if_pos hterm, run_eq_ok] at h
    obtain ⟨-, rfl, rfl⟩ := h
    exact ⟨rfl, rfl, Or.inl ⟨rfl, rfl, hterm⟩⟩
  · simp only [if_neg hterm, run_eq_ok, encodeHandle_eq_ok, not_not] at h
    obtain ⟨rfl, _, ⟨hvalid, rfl⟩, _, htime, rfl, rfl⟩ := h
    obtain ⟨hpos, rfl⟩ := recordTerminalTime_eq_ok htime
    have hactive : stored.record.status.terminal = false := by simpa using hterm
    refine ⟨rfl, rfl, Or.inr ⟨rfl, rfl, rfl, hrow, hactive, ?_, rfl, hvalid, rfl, rfl, rfl, ?_⟩⟩
    · exact InvocationStatus.cancelled_mem_validTransitions hactive
    · exact fun _ => hpos

theorem revokeCancelled_eq_ok {owned : Bool} {status : InvocationStatus}
    (h : (revokeCancelled identity owned status).run s = .ok (u, s')) :
    s' = { s with
      owners := if owned = true ∧ status = .cancelled then revoked identity s.owners
        else s.owners } := by
  unfold revokeCancelled at h
  split at h
  · rename_i hc
    rw [if_pos hc, ← write_eq_ok.mp h]
  · rename_i hc
    rw [if_neg hc, ← (pure_eq_ok.mp h).2]

/-- A committed cancellation either found the record terminal and adopted it, or
wrote the cancelled snapshot over the expected one.  A cancelled record has no live
owner afterwards. -/
theorem cancelBody_eq_ok {result : InvocationRecord × Snapshot}
    (h : (cancelBody sha256 handle expected original error revision instant parent).run s
      = .ok (result, s')) :
    result.1 = result.2.record ∧ handle.record.identity = result.2.record.identity ∧
    ((Untouched s s' ∧ s.invocations.lookup handle.record.identity.invocationId =
        some ⟨result.2, result.2.record.status⟩ ∧ result.2.record.status.terminal = true) ∨
      (result.2.revision = revision ∧ result.2.record.status = .cancelled ∧
        Overwrites sha256 expected result.2 instant s s')) ∧
    (∀ o, s.owners.ownership.lookup handle.record.identity.invocationId = some o →
      o.engine = handle.record.identity.engine ∧
        o.fingerprint = handle.record.identity.workflowFingerprint) ∧
    s'.owners = (if (s.owners.ownership.lookup handle.record.identity.invocationId).isSome ∧
        result.2.record.status = .cancelled then
      revoked handle.record.identity s.owners else s.owners) := by
  simp only [cancelBody, run_eq_ok, verifyIdentity_eq_ok] at h
  obtain ⟨_, hparent, howner, found, _, hget, current, rfl, hident, stored, hstored, res, s₁,
    hres, _, hrev, rfl, rfl⟩ := h
  obtain rfl := checkParentRow_eq_ok hparent
  obtain ⟨rfl, ⟨-, hnone⟩ | ⟨row, hrow, hid, hst, hcur⟩⟩ := getInvocation_eq_ok hget
  · cases hnone
  · cases hcur
    cases hstored
    have hrow' : s.invocations.lookup row.payload.invocationId =
        some ⟨row.payload, row.payload.record.status⟩ := by
      rw [hid, hst, hrow]
    obtain ⟨hfst, howners, hcases⟩ := cancelRecord_eq_ok hrow' hres
    obtain rfl := revokeCancelled_eq_ok hrev
    have hsame : handle.record.identity = res.2.record.identity := by
      rcases hcases with ⟨-, heq, -⟩ | ⟨-, -, heq, -⟩
      · rw [heq]
        exact hident
      · rw [heq]
        exact hident
    refine ⟨hfst, hsame, ?_, ?_, ?_⟩
    · rcases hcases with ⟨rfl, heq, hterm⟩ | ⟨hrv, hcan, -, hover⟩
      · refine Or.inl ⟨⟨rfl, rfl, rfl⟩, ?_, by rw [heq]; exact hterm⟩
        rw [heq, ← hrow', hid]
      · exact Or.inr ⟨hrv, hcan, hover.stored, hover.active, hover.transition, hover.identity,
          hover.valid, hover.invocations, hover.history, hover.terminalTimes, hover.instant_pos⟩
    · intro o ho
      simpa [ho] using howner
    · simp only [howners, hfst]

theorem cancelTransaction_eq_ok {lease : Option ExecutionLease}
    {r : (InvocationRecord × Snapshot) × RuntimeStore}
    (h : (cancelTransaction sha256 handle expected original error revision instant parent
      lease).run s = .ok r) :
    (cancelBody sha256 handle expected original error revision instant parent).run s = .ok r := by
  unfold cancelTransaction at h
  rw [mapError_eq_ok] at h
  cases parent with
  | none => exact h
  | some => exact (Ownership.ownedWriteTransaction_eq_ok.mp h).2

theorem insertInput_eq_ok {input : Option Json}
    (h : (insertInput identity input).run s = .ok (u, s')) :
    (∀ v, input = some v → s.inputs.lookup identity.invocationId = none) ∧
      s' = { s with inputs := withInput identity input s.inputs } := by
  cases input with
  | none =>
    obtain ⟨-, rfl⟩ := pure_eq_ok.mp h
    exact ⟨by simp, rfl⟩
  | some =>
    simp only [insertInput, run_eq_ok, not_not] at h
    obtain ⟨hnone, rfl⟩ := h
    exact ⟨fun _ _ => hnone, rfl⟩

theorem createInTransaction_eq_ok {input : Option Json} {reserved : Option String}
    (h : (createInTransaction identity revision input reserved).run s = .ok (handle, s')) :
    ∃ encoded : Snapshot, encoded.revision = revision ∧
      encoded.record.identity =
        { identity with invocationId := reserved.getD identity.invocationId } ∧
      handle = ⟨encoded.record, some encoded, none⟩ ∧ Creates encoded s s' ∧
      s'.owners = s.owners ∧
      (∀ v, input = some v → v.valid = true ∧
        s.inputs.lookup encoded.invocationId = none) ∧
      s'.inputs = withInput encoded.record.identity input s.inputs := by
  simp only [createInTransaction, run_eq_ok, encodeHandle_eq_ok, not_not] at h
  obtain ⟨hinput, -, _, ⟨hvalid, rfl⟩, habsent, _, hins, rfl, rfl⟩ := h
  obtain ⟨hfree, rfl⟩ := insertInput_eq_ok hins
  refine ⟨_, rfl, rfl, rfl, ⟨habsent, rfl, hvalid, rfl, rfl, rfl⟩, rfl, ?_, ?_⟩
  · intro v hv
    subst hv
    exact ⟨by simpa using hinput, hfree v rfl⟩
  · rfl

/-- `get` as a caller sees it: a new handle of this process. -/
def load (invocationId : String) :
    Procedure OwaError ExecutionHandle RuntimeStore Unit := do
  let found ← Procedure.transaction (getInvocation invocationId)
  match found with
  | none => pure ()
  | some handle => set handle

/-- `create` as a caller sees it. -/
def create (identity : InvocationIdentity) (revision : String) :
    Procedure OwaError ExecutionHandle RuntimeStore Unit := do
  let handle ← Procedure.transaction (createInTransaction identity revision none none)
  set handle

end Invocations
