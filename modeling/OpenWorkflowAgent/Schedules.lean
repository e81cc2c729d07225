/-
# The schedule store

`_schedule_store.py` and `_schedule_storage.py`: schedules, their occurrences
(slots), the claims that schedulers hold on slots, and the binding of a slot to the
invocation that runs it.  Every operation is one transaction, serialized on the
admission clock.

A slot is kept under its schedule and its occurrence; `slot_key`, the hash of the
two, is only used to order slots.  The texts of payloads are modelled as the values
they encode.  One auxiliary field, `createdAt`, records the clock at which `create`
was called; no operation reads it.
-/
import OpenWorkflowAgent.Invocations
import OpenWorkflowAgent.ScheduleProfiles

open Transaction

/-! ## Records -/

/-- `SCHEDULE_STATES`. -/
inductive ScheduleStatus where
  | active
  | completed
  | cancelled
  | faulted
  deriving DecidableEq, Repr

inductive SlotState where
  | pending
  | running
  | waiting
  | completed
  | cancelled
  | faulted
  deriving DecidableEq, Repr

/-- `_TERMINAL`, of a slot. -/
def SlotState.terminal : SlotState → Bool
  | .pending | .running | .waiting => false
  | .completed | .cancelled | .faulted => true

/-- The status of a finished schedule or slot, of that of its invocation. -/
inductive FinishStatus where
  | completed
  | cancelled
  | faulted
  deriving DecidableEq, Repr

namespace FinishStatus

def slot : FinishStatus → SlotState
  | .completed => .completed
  | .cancelled => .cancelled
  | .faulted => .faulted

def schedule : FinishStatus → ScheduleStatus
  | .completed => .completed
  | .cancelled => .cancelled
  | .faulted => .faulted

def invocation : FinishStatus → InvocationStatus
  | .completed => .completed
  | .cancelled => .cancelled
  | .faulted => .faulted

/-- A status of an invocation, if it is in `_TERMINAL`. -/
def ofInvocation : InvocationStatus → Option FinishStatus
  | .running | .waiting => none
  | .completed => some .completed
  | .cancelled => some .cancelled
  | .faulted => some .faulted

theorem slot_terminal (status : FinishStatus) : status.slot.terminal = true := by
  cases status <;> rfl

end FinishStatus

/-- An occurrence of a schedule: `slot:n`, or `trigger:cycle` for event triggers. -/
inductive Occurrence where
  | slot (n : ℕ)
  | trigger (cycle : String)
  deriving DecidableEq, Repr

/-- The fields of a schedule that never change (`_definition`). -/
structure ScheduleDefinition where
  scheduleId : String
  workflowName : String
  workflowVersion : String
  workflowFingerprint : String
  workflowSource : Json
  inputData : Json
  kind : ScheduleKind
  intervalSeconds : Option ℚ
  ownerPrincipal : Option String
  eventScope : String
  timezone : String
  executionAuthorityDigest : Option String
  deriving DecidableEq

/-- `ScheduleRecord`, without its claim. -/
structure ScheduleRecord where
  definition : ScheduleDefinition
  nextRunAt : ℚ
  status : ScheduleStatus
  lastInvocationId : Option String
  lastStatus : Option FinishStatus
  nextSequence : ℕ
  leaseUntil : Option ℚ
  deriving DecidableEq

/-- `ScheduleClaim`, whose occurrence is kept as such. -/
structure ScheduleClaim where
  scheduleId : String
  occurrence : Occurrence
  owner : String
  generation : ℕ
  leaseUntil : ℚ
  deriving DecidableEq

def ScheduleClaim.key (claim : ScheduleClaim) : String × Occurrence :=
  (claim.scheduleId, claim.occurrence)

/-- A record with its `_claim`, which only the store sets, to a claim on an occurrence
of the record's own schedule. -/
structure ClaimedRecord where
  record : ScheduleRecord
  claim : Option ScheduleClaim
  same : ∀ c ∈ claim, c.scheduleId = record.definition.scheduleId

/-! ## Tables -/

/-- A row of `schedules`.  The payload does not hold the lease. -/
structure ScheduleRow where
  payload : ScheduleRecord
  status : ScheduleStatus
  nextRunAt : ℚ
  leaseUntil : Option ℚ
  operationKey : Option String
  deriving DecidableEq

/-- A row of `schedule_slots`, without its keys. -/
structure SlotRow where
  nominalAt : ℚ
  state : SlotState
  owner : String
  generation : ℕ
  leaseUntil : Option ℚ
  invocationId : Option String
  inputPayload : Json
  deriving DecidableEq

/-- A row of `schedule_bindings`: the fields of the invocation that never change. -/
structure ScheduleBinding where
  invocationId : String
  engine : String
  engineExecutionReference : String
  sessionId : String
  workflowName : String
  workflowVersion : String
  workflowFingerprint : String
  ownerPrincipal : Option String
  deriving DecidableEq

/-- `immutable` of a handle. -/
def bindingOf (identity : InvocationIdentity) : ScheduleBinding :=
  ⟨identity.invocationId, identity.engine, identity.engineExecutionReference, identity.sessionId,
    identity.workflowName, identity.workflowVersion, identity.workflowFingerprint,
    identity.ownerPrincipal⟩

/-- The tables of schedules, with those of invocations.  `A` is the state of the
authorization tables, which only the hooks of a deployment read and write. -/
structure ScheduleStore (A : Type) where
  runtime : RuntimeStore
  authority : A
  schedules : Table String ScheduleRow
  definitions : Table String ScheduleDefinition
  slots : Table (String × Occurrence) SlotRow
  bindings : Table (String × Occurrence) ScheduleBinding
  /-- Auxiliary: the clock at which each schedule was created. -/
  createdAt : Table String ℚ

/-- What a deployment brings to the store.  Each hook may be missing, and may raise. -/
structure ScheduleServices (A : Type) where
  calendar : ScheduleCalendar
  /-- `_slot_key`. -/
  slotKey : String × Occurrence → String
  /-- The digest of stored snapshots, for terminal times. -/
  sha256 : Snapshot → String
  /-- `authority_expectation`. -/
  authorityExpectation : Option (ScheduleRecord → Except OwaError (Option String))
  /-- `authority_verifier`. -/
  authorityVerifier : Option (ScheduleStore A → ScheduleRecord → Except OwaError Unit)
  /-- `authority_participant`, which writes the authorization tables. -/
  authorityParticipant : Option (ScheduleStore A → ScheduleRecord → Except OwaError A)
  /-- `invocation_authority_participant`, which writes the authorization tables. -/
  invocationAuthority : Option (ScheduleStore A → ScheduleRecord → ExecutionHandle →
    ScheduleClaim → Except OwaError A)

/-- The fields of `WorkflowPlan` that a schedule keeps. -/
structure SchedulePlan where
  name : String
  version : String
  fingerprint : String
  source : Json

/-- The identifiers that `uuid4` draws for a new invocation. -/
structure FreshIds where
  invocationId : String
  engineExecutionReference : String
  sessionId : String
  revision : String

namespace Schedules

/-! ## Payloads -/

/-- A number of a payload. -/
def optionalFloat : Option ℚ → Json
  | some x => .float x
  | none => .null

/-- The fields of the definition that `_json` has to accept; a text (the workflow
source is one) or a missing value always is. -/
def definitionFields (d : ScheduleDefinition) : List (String × Json) :=
  [("input_data", d.inputData), ("interval_seconds", optionalFloat d.intervalSeconds)]

/-- The other fields of a payload that `_json` has to accept. -/
def stateFields (r : ScheduleRecord) : List (String × Json) :=
  [("next_run_at", .float r.nextRunAt), ("next_sequence", .int r.nextSequence)]

/-- `_json(_definition)` does not raise. -/
def definitionValid (d : ScheduleDefinition) : Bool := (Json.obj (definitionFields d)).valid

/-- `_json(_payload)` does not raise. -/
def payloadValid (r : ScheduleRecord) : Bool :=
  (Json.obj (definitionFields r.definition ++ stateFields r)).valid

def payloadOf (r : ScheduleRecord) : ScheduleRecord := { r with leaseUntil := none }

variable {A : Type} (sv : ScheduleServices A)

/-- The `schedule` object of a workflow source. -/
def scheduleOf (source : Json) : Json := (source.field? "schedule").getD .null

/-- The profile of a record's workflow. -/
def profileOf (d : ScheduleDefinition) : Except OwaError ScheduleProfile :=
  ScheduleProfiles.parseSchedule sv.calendar (scheduleOf d.workflowSource)

/-! ## Reading schedules -/

def occurrencesOf (s : ScheduleStore A) (scheduleId : String) : List Occurrence :=
  (s.slots.selectRows fun k _ => k.1 = scheduleId).map fun r => r.1.2

/-- `slot:1` up to the one before the next sequence number. -/
def expectedOccurrences (nextSequence : ℕ) : List Occurrence :=
  (List.range' 1 (nextSequence - 1)).map .slot

/-- The stored occurrences are the expected ones, as sets. -/
def occurrencesAgree (s : ScheduleStore A) (scheduleId : String) (nextSequence : ℕ) : Prop :=
  occurrencesOf s scheduleId ⊆ expectedOccurrences nextSequence ∧
    expectedOccurrences nextSequence ⊆ occurrencesOf s scheduleId

instance (s : ScheduleStore A) (scheduleId : String) (nextSequence : ℕ) :
    Decidable (occurrencesAgree s scheduleId nextSequence) :=
  inferInstanceAs (Decidable (_ ∧ _))

/-- `authority_verifier`, if one is installed. -/
def verifyAuthority (s : ScheduleStore A) (record : ScheduleRecord) : Except OwaError Unit :=
  match sv.authorityVerifier with
  | none => .ok ()
  | some verifier => verifier s record

/-- The record of a stored row, after every check of `_get`. -/
def checkRow (s : ScheduleStore A) (scheduleId : String) (row : ScheduleRow) :
    Except OwaError ScheduleRecord := do
  raiseIf (row.payload.status ≠ row.status ∨ row.payload.nextRunAt ≠ row.nextRunAt)
    (OwaError.plain .valueError "schedule columns disagree")
  let record : ScheduleRecord := { row.payload with leaseUntil := row.leaseUntil }
  raiseIf (definitionValid record.definition = false) invalidExpressionData
  raiseIf (s.definitions.lookup scheduleId ≠ some record.definition)
    (OwaError.plain .valueError "schedule definition evidence disagrees")
  raiseIf (record.definition.kind ≠ .on ∧ ¬ occurrencesAgree s scheduleId record.nextSequence)
    (OwaError.plain .valueError "schedule occurrence evidence is missing")
  let profile ← profileOf sv record.definition
  raiseIf (profile.kind ≠ record.definition.kind ∨
      profile.intervalSeconds ≠ record.definition.intervalSeconds)
    (OwaError.plain .valueError "schedule profile disagrees")
  verifyAuthority sv s record
  return record

/-- The error of `_get`. -/
def evidenceInconsistent : OwaError :=
  .plain .scheduleValidationError "schedule evidence is unavailable or inconsistent"

/-- What `_get` answers in a store. -/
def readSchedule (scheduleId : String) (s : ScheduleStore A) :
    Except OwaError (Option ScheduleRecord) :=
  match s.schedules.lookup scheduleId with
  | none => .ok none
  | some row => match checkRow sv s scheduleId row with
    | .ok record => .ok (some record)
    | .error _ => .error evidenceInconsistent

/-- `_get`. -/
def getSchedule (scheduleId : String) :
    Transaction OwaError (ScheduleStore A) (Option ScheduleRecord) := do
  let answer ← read (readSchedule sv scheduleId)
  orRaiseError answer

/-- `_require`. -/
def requireSchedule (scheduleId : String) : Transaction OwaError (ScheduleStore A) ScheduleRecord := do
  let found ← getSchedule sv scheduleId
  orRaise found (.plain .keyError scheduleId)

/-- `_save`: `UPDATE schedules … WHERE schedule_id = ?`. -/
def putRecord (record : ScheduleRecord) (s : ScheduleStore A) : ScheduleStore A :=
  { s with
    schedules := s.schedules.updateWhere record.definition.scheduleId (fun _ => true)
      (fun row => { row with
        payload := payloadOf record
        status := record.status
        nextRunAt := record.nextRunAt
        leaseUntil := record.leaseUntil }) }

def saveSchedule (record : ScheduleRecord) : Transaction OwaError (ScheduleStore A) Unit := do
  raiseIf (payloadValid record = false) invalidExpressionData
  write (putRecord record)

/-- A transaction of the invocation store on the connection of the schedules. -/
def runtimeTransaction {α : Type} (t : Transaction OwaError RuntimeStore α) :
    Transaction OwaError (ScheduleStore A) α :=
  t.zoom ScheduleStore.runtime fun r s => { s with runtime := r }

/-- `UPDATE schedule_slots SET … ` of one slot. -/
def setSlot (key : String × Occurrence) (f : SlotRow → SlotRow) (s : ScheduleStore A) :
    ScheduleStore A :=
  { s with slots := s.slots.updateWhere key (fun _ => true) f }

def newSlot (nominalAt : ℚ) (input : Json) : SlotRow :=
  ⟨nominalAt, .pending, "", 0, none, none, input.canonical⟩

/-- `INSERT INTO schedule_slots`; the key and the input have to be acceptable. -/
def insertSlot (key : String × Occurrence) (nominalAt : ℚ) (input : Json) :
    Transaction OwaError (ScheduleStore A) SlotRow := do
  raiseIf (input.valid = false) invalidExpressionData
  let taken ← read fun s => s.slots.lookup key
  raiseIf (taken ≠ none) (.plain .storageError "duplicate schedule slot")
  write fun s => { s with slots := s.slots.put key (newSlot nominalAt input) }
  return newSlot nominalAt input

/-! ## Creation -/

/-- What `create` is asked for; `scheduleId` is the fresh `uuid4`. -/
structure CreateRequest where
  plan : SchedulePlan
  input : Json
  operationKey : Option String
  now : ℚ
  ownerPrincipal : Option String
  eventScope : String
  timezone : String
  scheduleId : String

/-- The schedule that holds an operation key; the empty key is none. -/
def findOperation (operationKey : Option String) (s : ScheduleStore A) : Option String :=
  match operationKey with
  | none => none
  | some key => if key = "" then none else
      (s.schedules.selectRows fun _ row => row.operationKey = some key).head?.map Prod.fst

/-- The first due instant: event triggers have none. -/
def firstDue (profile : ScheduleProfile) (now : ℚ) (timezone : String) : Except OwaError ℚ :=
  if profile.kind = .on then .ok 0
  else ScheduleProfiles.nextDue sv.calendar profile now timezone

def newRecord (request : CreateRequest) (profile : ScheduleProfile) (due : ℚ) : ScheduleRecord where
  definition :=
    { scheduleId := request.scheduleId
      workflowName := request.plan.name
      workflowVersion := request.plan.version
      workflowFingerprint := request.plan.fingerprint
      workflowSource := request.plan.source
      inputData := request.input.canonical
      kind := profile.kind
      intervalSeconds := profile.intervalSeconds
      ownerPrincipal := request.ownerPrincipal
      eventScope := request.eventScope
      timezone := request.timezone
      executionAuthorityDigest := none }
  nextRunAt := due
  status := .active
  lastInvocationId := none
  lastStatus := none
  nextSequence := 1
  leaseUntil := none

/-- A record with the digest that the deployment expects. -/
def withAuthority (record : ScheduleRecord) : Except OwaError ScheduleRecord :=
  match sv.authorityExpectation with
  | none => .ok record
  | some expectation => do
      let digest ← expectation record
      return { record with
        definition := { record.definition with executionAuthorityDigest := digest } }

/-- The two rows of a new schedule. -/
def putSchedule (record : ScheduleRecord) (operationKey : Option String) (now : ℚ)
    (s : ScheduleStore A) : ScheduleStore A :=
  { s with
    schedules := s.schedules.put record.definition.scheduleId
      ⟨payloadOf record, record.status, record.nextRunAt, none, operationKey⟩
    definitions := s.definitions.put record.definition.scheduleId record.definition
    createdAt := s.createdAt.put record.definition.scheduleId now }

/-- `authority_participant`, if one is installed. -/
def reserveSchedule (record : ScheduleRecord) : Transaction OwaError (ScheduleStore A) Unit :=
  match sv.authorityParticipant with
  | none => pure ()
  | some participant => do
      let answer ← read fun s => participant s record
      let authority ← orRaiseError answer
      write fun s => { s with authority := authority }

/-- The inserts of `create`. -/
def insertSchedule (request : CreateRequest) (profile : ScheduleProfile) :
    Transaction OwaError (ScheduleStore A) ScheduleRecord := do
  let due ← orRaiseError (firstDue sv profile request.now request.timezone)
  let record ← orRaiseError (withAuthority sv (newRecord request profile due))
  raiseIf (payloadValid record = false) invalidExpressionData
  let taken ← read fun s => s.schedules.rows.any fun r =>
    r.1 = request.scheduleId || (request.operationKey.isSome && r.2.operationKey = request.operationKey)
  raiseIf (taken = true) (.plain .storageError "duplicate schedule")
  let defined ← read fun s => s.definitions.lookup request.scheduleId
  raiseIf (defined ≠ none) (.plain .storageError "duplicate schedule definition")
  write (putSchedule record request.operationKey request.now)
  reserveSchedule sv record
  return record

/-- A schedule that already holds the operation key answers a repeated request. -/
def repeatedSchedule (request : CreateRequest) (scheduleId : String) :
    Transaction OwaError (ScheduleStore A) ScheduleRecord := do
  let existing ← requireSchedule sv scheduleId
  raiseIf (existing.definition.workflowFingerprint ≠ request.plan.fingerprint ∨
      existing.definition.ownerPrincipal ≠ request.ownerPrincipal ∨
      existing.definition.eventScope ≠ request.eventScope)
    (.plain .scheduleOperationConflict "idempotency key belongs to another schedule")
  return existing

/-- The transaction of `create`. -/
def createOrRepeat (request : CreateRequest) (profile : ScheduleProfile)
    (existing : Option String) : Transaction OwaError (ScheduleStore A) ScheduleRecord :=
  match existing with
  | some scheduleId => repeatedSchedule sv request scheduleId
  | none => insertSchedule sv request profile

/-- `create`. -/
def create (request : CreateRequest) : Transaction OwaError (ScheduleStore A) ScheduleRecord := do
  let profile ← orRaiseError
    (ScheduleProfiles.parseSchedule sv.calendar (scheduleOf request.plan.source))
  raiseIf (request.eventScope = "")
    (.plain .scheduleValidationError "schedule clock or trusted scope is invalid")
  raiseIf (request.input.valid = false)
    (.plain .scheduleValidationError "schedule input must be JSON serializable")
  let existing ← read (findOperation request.operationKey)
  createOrRepeat sv request profile existing

/-! ## Bindings -/

/-- The error of a binding that lacks one of its three rows. -/
def evidenceMissing : OwaError :=
  .plain .scheduleValidationError "scheduled invocation evidence is missing"

def bindingInconsistent : OwaError :=
  .plain .scheduleValidationError "scheduled invocation evidence is inconsistent"

def verifyTerminal (handle : ExecutionHandle) : Transaction OwaError (ScheduleStore A) Unit :=
  if handle.record.status.terminal then do
    let _ ← runtimeTransaction
      (Invocations.terminalCompletedAtInTransaction sv.sha256 handle.record)
    return ()
  else pure ()

/-- The handle of a bound invocation, after its rows are compared. -/
def checkBinding (record : ScheduleRecord) (row : SlotRow) (saved : ScheduleBinding)
    (invocation : InvocationRow) (original : InputRow) :
    Transaction OwaError (ScheduleStore A) ExecutionHandle := do
  let handle : ExecutionHandle := ⟨invocation.payload.record, some invocation.payload, none⟩
  let identity := handle.record.identity
  raiseIf (saved ≠ bindingOf identity ∨ handle.record.status ≠ invocation.status ∨
      identity.workflowFingerprint ≠ record.definition.workflowFingerprint ∨
      identity.ownerPrincipal ≠ record.definition.ownerPrincipal ∨
      original.fingerprint ≠ record.definition.workflowFingerprint ∨
      original.payload.valid = false ∨ original.payload.canonical ≠ row.inputPayload)
    (.plain .valueError "scheduled invocation binding disagrees")
  verifyTerminal sv handle
  return handle

/-- The three rows of a binding, compared if all are there. -/
def compareBinding (record : ScheduleRecord) (row : SlotRow) :
    Option ScheduleBinding → Option InvocationRow → Option InputRow →
      Transaction OwaError (ScheduleStore A) ExecutionHandle
  | some saved, some invocation, some original =>
    mapError (fun _ => bindingInconsistent) (checkBinding sv record row saved invocation original)
  | _, _, _ => throw evidenceMissing

/-- `_binding`. -/
def binding (record : ScheduleRecord) (key : String × Occurrence) (row : SlotRow) :
    Transaction OwaError (ScheduleStore A) ExecutionHandle := do
  let saved ← read fun s => s.bindings.lookup key
  let invocation ← read fun s => row.invocationId.bind s.runtime.invocations.lookup
  let original ← read fun s => row.invocationId.bind s.runtime.inputs.lookup
  compareBinding sv record row saved invocation original

/-! ## Claims -/

/-- The claim is the live one of the slot: `_fence` does not raise. -/
def Fences (row : SlotRow) (claim : ScheduleClaim) (now : ℚ) : Prop :=
  row.owner = claim.owner ∧ row.generation = claim.generation ∧
    row.leaseUntil = some claim.leaseUntil ∧ now < claim.leaseUntil ∧ row.state.terminal = false

instance (row : SlotRow) (claim : ScheduleClaim) (now : ℚ) : Decidable (Fences row claim now) :=
  inferInstanceAs (Decidable (_ ∧ _))

/-- The error of `_fence`. -/
def claimStale : OwaError :=
  .plain .scheduleOperationConflict "schedule occurrence claim is stale"

/-- `_fence` of the slot that the claim is on. -/
def fence (claim : ScheduleClaim) (now : ℚ) : Transaction OwaError (ScheduleStore A) SlotRow := do
  let found ← read fun s => s.slots.lookup claim.key
  let row ← orRaise found claimStale
  raiseIf (¬ Fences row claim now) claimStale
  return row

/-- What `claim_due` is asked for; `owner` is the given one, or a fresh one. -/
structure ClaimRequest where
  now : ℚ
  leaseSeconds : ℚ
  owner : String
  scheduleId : Option String
  excludeScheduleIds : List String
  eligibleInvocation : ExecutionHandle → Bool

def ClaimRequest.admits (request : ClaimRequest) (scheduleId : String) : Bool :=
  request.scheduleId.all (· = scheduleId) && scheduleId ∉ request.excludeScheduleIds

/-- A slot without a live lease, and not waiting for an active invocation. -/
def recoverableSlot (request : ClaimRequest) (s : ScheduleStore A) (key : String × Occurrence)
    (row : SlotRow) : Bool :=
  !row.state.terminal && row.leaseUntil.all (· ≤ request.now) &&
    (row.state ≠ .waiting ||
      !(row.invocationId.bind s.runtime.invocations.lookup).any fun r => !r.status.terminal) &&
    request.admits key.1

/-- `ORDER BY nominal_at,slot_key`. -/
def slotBefore (a b : (String × Occurrence) × SlotRow) : Prop :=
  a.2.nominalAt < b.2.nominalAt ∨
    (a.2.nominalAt = b.2.nominalAt ∧ sv.slotKey a.1 ≤ sv.slotKey b.1)

instance : DecidableRel (slotBefore sv) := fun _ _ => inferInstanceAs (Decidable (_ ∨ _))

/-- The recoverable slots, at most 128. -/
def recoverable (request : ClaimRequest) (s : ScheduleStore A) : List (String × Occurrence) :=
  (((s.slots.selectRows (recoverableSlot request s)).insertionSort (slotBefore sv)).take 128).map
    Prod.fst

/-- The record that `_claim` answers. -/
def claimedRecord (record : ScheduleRecord) (occurrence : Occurrence) (row : SlotRow)
    (request : ClaimRequest) : ClaimedRecord where
  record := { record with
    definition := { record.definition with inputData := row.inputPayload }
    leaseUntil := some (request.now + request.leaseSeconds) }
  claim := some
    { scheduleId := record.definition.scheduleId
      occurrence := occurrence
      owner := request.owner
      generation := row.generation + 1
      leaseUntil := request.now + request.leaseSeconds }
  same := by simp

def claimedSlot (request : ClaimRequest) (row : SlotRow) : SlotRow :=
  { row with
    owner := request.owner
    generation := row.generation + 1
    leaseUntil := some (request.now + request.leaseSeconds) }

/-- `_claim`. -/
def claimSlot (request : ClaimRequest) (record : ScheduleRecord) (key : String × Occurrence)
    (row : SlotRow) : Transaction OwaError (ScheduleStore A) ClaimedRecord := do
  write (setSlot key fun _ => claimedSlot request row)
  return claimedRecord record key.2 row request

/-- A bound slot is claimed only if its invocation is worth resuming. -/
def resumable (request : ClaimRequest) (record : ScheduleRecord) (key : String × Occurrence)
    (row : SlotRow) : Transaction OwaError (ScheduleStore A) Bool :=
  match row.invocationId with
  | none => pure true
  | some _ => do
      let handle ← binding sv record key row
      return (row.state ≠ .waiting || handle.record.status.terminal) &&
        request.eligibleInvocation handle

/-- The end of one round of the loop over recoverable slots. -/
def claimIf (request : ClaimRequest) (record : ScheduleRecord) (key : String × Occurrence)
    (row : SlotRow) (proceed : Bool) :
    Transaction OwaError (ScheduleStore A) (Option ClaimedRecord) :=
  if proceed then do
    let claimed ← claimSlot request record key row
    return some claimed
  else pure none

/-- One round for a schedule that was read; an inactive one is skipped. -/
def recoverActive (request : ClaimRequest) (key : String × Occurrence) (record : ScheduleRecord) :
    Transaction OwaError (ScheduleStore A) (Option ClaimedRecord) :=
  if record.status ≠ .active then pure none
  else do
    let found ← read fun s => s.slots.lookup key
    let row ← orRaise found (.plain .otherException "slot row is absent")
    let proceed ← resumable sv request record key row
    claimIf request record key row proceed

/-- One round of the loop over recoverable slots. -/
def recoverSlot (request : ClaimRequest) (key : String × Occurrence) :
    Transaction OwaError (ScheduleStore A) (Option ClaimedRecord) := do
  let record ← requireSchedule sv key.1
  recoverActive sv request key record

/-- The first round that claims ends the loop. -/
def orElseClaim (first : Option ClaimedRecord)
    (rest : Transaction OwaError (ScheduleStore A) (Option ClaimedRecord)) :
    Transaction OwaError (ScheduleStore A) (Option ClaimedRecord) :=
  match first with
  | some claimed => pure (some claimed)
  | none => rest

/-- The loop over recoverable slots. -/
def recoverFirst (request : ClaimRequest) : List (String × Occurrence) →
    Transaction OwaError (ScheduleStore A) (Option ClaimedRecord)
  | [] => pure none
  | key :: rest => do
      let first ← recoverSlot sv request key
      orElseClaim first (recoverFirst request rest)

/-- `ORDER BY next_run_at,schedule_id`. -/
def dueBefore (a b : String × ScheduleRow) : Prop :=
  a.2.nextRunAt < b.2.nextRunAt ∨ (a.2.nextRunAt = b.2.nextRunAt ∧ a.1 ≤ b.1)

instance : DecidableRel dueBefore := fun _ _ => inferInstanceAs (Decidable (_ ∨ _))

def dueSchedule (request : ClaimRequest) (s : ScheduleStore A) : Option String :=
  ((s.schedules.selectRows fun id row => row.status = .active && 0 < row.nextRunAt &&
    row.nextRunAt ≤ request.now && request.admits id).insertionSort dueBefore).head?.map Prod.fst

/-- The due instant after an admitted occurrence; `after` waits for its completion. -/
def followingDue (record : ScheduleRecord) (profile : ScheduleProfile) : Except OwaError ℚ :=
  if record.definition.kind = .every ∨ record.definition.kind = .cron then
    ScheduleProfiles.nextDue sv.calendar profile record.nextRunAt record.definition.timezone
  else .ok 0

/-- Admit the next occurrence of a due schedule and claim it. -/
def admitOccurrence (request : ClaimRequest) (scheduleId : String) :
    Transaction OwaError (ScheduleStore A) (Option ClaimedRecord) := do
  let record ← requireSchedule sv scheduleId
  let key := (record.definition.scheduleId, Occurrence.slot record.nextSequence)
  let row ← insertSlot key record.nextRunAt record.definition.inputData
  let profile ← orRaiseError (profileOf sv record.definition)
  let due ← orRaiseError (followingDue sv record profile)
  let advanced := { record with nextSequence := record.nextSequence + 1, nextRunAt := due }
  saveSchedule advanced
  let claimed ← claimSlot request advanced key row
  return some claimed

/-- Without a due schedule there is nothing to claim. -/
def admitDue (request : ClaimRequest) (due : Option String) :
    Transaction OwaError (ScheduleStore A) (Option ClaimedRecord) :=
  match due with
  | none => pure none
  | some scheduleId => admitOccurrence sv request scheduleId

/-- `claim_due`. -/
def claimDue (request : ClaimRequest) :
    Transaction OwaError (ScheduleStore A) (Option ClaimedRecord) := do
  raiseIf (request.leaseSeconds ≤ 0) (.plain .scheduleValidationError "schedule lease is invalid")
  let keys ← read (recoverable sv request)
  let recovered ← recoverFirst sv request keys
  orElseClaim recovered do
    let due ← read (dueSchedule request)
    admitDue sv request due

/-! ## Binding an occurrence to its invocation -/

/-- `_bind_authority`: only of a claimed slot. -/
def bindAuthority (record : ScheduleRecord) (key : String × Occurrence) (row : SlotRow)
    (handle : ExecutionHandle) : Transaction OwaError (ScheduleStore A) Unit :=
  match sv.invocationAuthority, row.leaseUntil with
  | some participant, some leaseUntil =>
    if row.owner = "" then pure ()
    else do
      let answer ← read fun s => participant s record handle
        ⟨record.definition.scheduleId, key.2, row.owner, row.generation, leaseUntil⟩
      let authority ← orRaiseError answer
      write fun s => { s with authority := authority }
  | _, _ => pure ()

def scheduledIdentity (record : ScheduleRecord) (engine : String) (fresh : FreshIds) :
    InvocationIdentity where
  invocationId := fresh.invocationId
  engine := engine
  engineExecutionReference := fresh.engineExecutionReference
  userId := none
  sessionId := fresh.sessionId
  workflowName := record.definition.workflowName
  workflowVersion := record.definition.workflowVersion
  workflowFingerprint := record.definition.workflowFingerprint
  parentInvocationId := none
  parentTaskReference := none
  ownerPrincipal := record.definition.ownerPrincipal

/-- `INSERT INTO schedule_bindings`. -/
def insertBinding (key : String × Occurrence) (saved : ScheduleBinding) :
    Transaction OwaError (ScheduleStore A) Unit := do
  let taken ← read fun s => s.bindings.lookup key
  raiseIf (taken ≠ none) (.plain .storageError "duplicate schedule binding")
  write fun s => { s with bindings := s.bindings.put key saved }

def boundSlot (invocationId : String) (row : SlotRow) : SlotRow :=
  { row with invocationId := some invocationId, state := .running }

/-- Set the invocation of a slot, which no other slot may have. -/
def setSlotInvocation (key : String × Occurrence) (invocationId : String) :
    Transaction OwaError (ScheduleStore A) Unit := do
  let taken ← read fun s => s.slots.rows.any fun r =>
    r.1 ≠ key && r.2.invocationId = some invocationId
  raiseIf (taken = true) (.plain .storageError "duplicate slot invocation")
  write (setSlot key (boundSlot invocationId))

def bindNew (record : ScheduleRecord) (key : String × Occurrence) (row : SlotRow)
    (engine : String) (fresh : FreshIds) :
    Transaction OwaError (ScheduleStore A) ExecutionHandle := do
  let handle ← runtimeTransaction (Invocations.createInTransaction
    (scheduledIdentity record engine fresh) fresh.revision (some row.inputPayload) none)
  let invocationId := handle.record.identity.invocationId
  insertBinding key (bindingOf handle.record.identity)
  setSlotInvocation key invocationId
  let bound := { record with lastInvocationId := some invocationId }
  saveSchedule bound
  bindAuthority sv bound key row handle
  return handle

/-- A slot that is bound answers the invocation it has. -/
def bindAgain (record : ScheduleRecord) (key : String × Occurrence) (row : SlotRow)
    (engine : String) : Transaction OwaError (ScheduleStore A) ExecutionHandle := do
  let handle ← binding sv record key row
  raiseIf (handle.record.identity.engine ≠ engine)
    (.plain .scheduleOperationConflict "schedule belongs to a different engine")
  bindAuthority sv record key row handle
  return handle

/-- `_bind`. -/
def bindSlot (record : ScheduleRecord) (key : String × Occurrence) (row : SlotRow)
    (engine : String) (fresh : FreshIds) :
    Transaction OwaError (ScheduleStore A) ExecutionHandle :=
  match row.invocationId with
  | some _ => bindAgain sv record key row engine
  | none => bindNew sv record key row engine fresh

/-- `bind_invocation`. -/
def bindInvocation (claimed : ClaimedRecord) (engine : String) (now : ℚ) (fresh : FreshIds) :
    Transaction OwaError (ScheduleStore A) ExecutionHandle := do
  let claim ← orRaise claimed.claim
    (.plain .scheduleOperationConflict "schedule occurrence has not been claimed")
  let saved ← requireSchedule sv claimed.record.definition.scheduleId
  raiseIf (saved.status ≠ .active)
    (.plain .scheduleOperationConflict "schedule is no longer active")
  let row ← fence claim now
  bindSlot sv saved claim.key row engine fresh

/-- What `bind_trigger_in_transaction` is asked for; `now` is the host clock. -/
structure TriggerRequest where
  scheduleId : String
  cycleKey : String
  input : Json
  engine : String
  workflowFingerprint : Option String
  eventScope : Option String
  now : ℚ
  fresh : FreshIds

def TriggerRequest.key (request : TriggerRequest) : String × Occurrence :=
  (request.scheduleId, .trigger request.cycleKey)

/-- The error of a trigger whose input is not the one of its slot. -/
def triggerInputChanged : OwaError :=
  .plain .scheduleOperationConflict "event trigger input changed"

/-- Bind a slot that has no invocation yet; it is left for a scheduler to claim. -/
def bindPending (request : TriggerRequest) (record : ScheduleRecord) (row : SlotRow) :
    Transaction OwaError (ScheduleStore A) ExecutionHandle := do
  let handle ← bindSlot sv record request.key row request.engine request.fresh
  write (setSlot request.key fun r => { r with state := .pending })
  return handle

/-- A repeated trigger answers the invocation it has. -/
def repeatTrigger (request : TriggerRequest) (record : ScheduleRecord) (row : SlotRow) :
    Transaction OwaError (ScheduleStore A) ExecutionHandle := do
  raiseIf (row.inputPayload ≠ request.input.canonical) triggerInputChanged
  let existing ← binding sv record request.key row
  raiseIf (existing.record.identity.engine ≠ request.engine)
    (.plain .scheduleOperationConflict "event trigger belongs to a different engine")
  return existing

/-- The slot of a trigger: new, unbound or bound. -/
def bindTriggerSlot (request : TriggerRequest) (record : ScheduleRecord) :
    Option SlotRow → Transaction OwaError (ScheduleStore A) ExecutionHandle
  | none => do
      let row ← insertSlot request.key request.now request.input
      bindPending sv request record row
  | some row => match row.invocationId with
    | some _ => repeatTrigger sv request record row
    | none => do
        raiseIf (row.inputPayload ≠ request.input.canonical) triggerInputChanged
        bindPending sv request record row

/-- `bind_trigger_in_transaction`. -/
def bindTrigger (request : TriggerRequest) :
    Transaction OwaError (ScheduleStore A) ExecutionHandle := do
  let record ← requireSchedule sv request.scheduleId
  raiseIf (record.status ≠ .active ∨ record.definition.kind ≠ .on ∨ request.cycleKey = "" ∨
      (request.workflowFingerprint.any (record.definition.workflowFingerprint ≠ ·)) ∨
      (request.eventScope.any (record.definition.eventScope ≠ ·)))
    (.plain .scheduleOperationConflict "event trigger schedule identity disagrees")
  let found ← read fun s => s.slots.lookup request.key
  raiseIf (request.input.valid = false) invalidExpressionData
  bindTriggerSlot sv request record found

/-- `set_invocation`, which verifies a binding that is already there. -/
def setInvocation (scheduleId invocationId : String) (claim : Option ScheduleClaim) (now : ℚ) :
    Transaction OwaError (ScheduleStore A) ScheduleRecord := do
  let claim ← orRaise (claim.filter (·.scheduleId = scheduleId))
    (.plain .scheduleOperationConflict "invocation binding requires its occurrence claim")
  let record ← requireSchedule sv scheduleId
  let row ← fence claim now
  let handle ← binding sv record claim.key row
  raiseIf (handle.record.identity.invocationId ≠ invocationId)
    (.plain .scheduleOperationConflict "schedule invocation binding disagrees")
  return record

/-- `verify_trigger_binding_in_transaction`. -/
def verifyTriggerBinding (scheduleId cycleKey engine invocationId : String) (input : Json)
    (eventScope : Option String) : Transaction OwaError (ScheduleStore A) ExecutionHandle := do
  let record ← requireSchedule sv scheduleId
  let key := (scheduleId, Occurrence.trigger cycleKey)
  let found ← read fun s => s.slots.lookup key
  let disagrees : OwaError :=
    .plain .scheduleValidationError "event trigger binding evidence disagrees"
  raiseIf (record.definition.kind ≠ .on) disagrees
  let row ← orRaise found disagrees
  raiseIf (row.invocationId ≠ some invocationId) disagrees
  raiseIf (input.valid = false) invalidExpressionData
  raiseIf (row.inputPayload ≠ input.canonical ∨
    eventScope.any (record.definition.eventScope ≠ ·)) disagrees
  let handle ← binding sv record key row
  raiseIf (handle.record.identity.engine ≠ engine)
    (.plain .scheduleValidationError "event trigger engine binding disagrees")
  return handle

/-! ## Working on a claimed occurrence -/

/-- `renew`. -/
def renew (claim : ScheduleClaim) (now leaseSeconds : ℚ) :
    Transaction OwaError (ScheduleStore A) ScheduleClaim := do
  raiseIf (leaseSeconds ≤ 0) (.plain .scheduleValidationError "schedule lease is invalid")
  let _ ← fence claim now
  write (setSlot claim.key fun r => { r with leaseUntil := some (now + leaseSeconds) })
  return { claim with leaseUntil := now + leaseSeconds }

/-- `mark_waiting`. -/
def markWaiting (claim : ScheduleClaim) (now : ℚ) : Transaction OwaError (ScheduleStore A) Unit := do
  let _ ← fence claim now
  write (setSlot claim.key fun r => { r with state := .waiting, leaseUntil := none })

/-- The due instant after a completed occurrence of an `after` schedule. -/
def dueAfterCompletion (record : ScheduleRecord) (handle : ExecutionHandle) :
    Transaction OwaError (ScheduleStore A) ScheduleRecord := do
  let profile ← orRaiseError (profileOf sv record.definition)
  let completedAt ← runtimeTransaction
    (Invocations.terminalCompletedAtInTransaction sv.sha256 handle.record)
  let due ← orRaiseError
    (ScheduleProfiles.nextDue sv.calendar profile completedAt record.definition.timezone)
  return { record with nextRunAt := due }

/-- What a finished occurrence means for its schedule: only an active `after`
schedule moves, on to its next instant or to its end. -/
def finishRecord (record : ScheduleRecord) (handle : ExecutionHandle) (status : FinishStatus) :
    Transaction OwaError (ScheduleStore A) ScheduleRecord :=
  if record.status = .active ∧ record.definition.kind = .after then
    if status = .completed then dueAfterCompletion sv record handle
    else pure { record with status := status.schedule }
  else pure record

/-- `finish`. -/
def finish (scheduleId invocationId : String) (status : InvocationStatus) (now : ℚ)
    (claim : Option ScheduleClaim) : Transaction OwaError (ScheduleStore A) ScheduleRecord := do
  let status ← orRaise (FinishStatus.ofInvocation status)
    (.plain .scheduleValidationError "unsupported scheduled invocation status")
  let claim ← orRaise (claim.filter (·.scheduleId = scheduleId))
    (.plain .scheduleOperationConflict "schedule completion requires its occurrence claim")
  let record ← requireSchedule sv scheduleId
  let row ← fence claim now
  let handle ← binding sv record claim.key row
  raiseIf (handle.record.identity.invocationId ≠ invocationId ∨
      handle.record.status ≠ status.invocation)
    (.plain .scheduleOperationConflict "schedule completion disagrees with invocation")
  write (setSlot claim.key fun r => { r with state := status.slot, leaseUntil := none })
  let finished ← finishRecord sv
    { record with lastInvocationId := some invocationId, lastStatus := some status } handle status
  saveSchedule finished
  return finished

/-- A slot as the cancellation of its schedule leaves it. -/
def cancelledSlot (row : SlotRow) : SlotRow :=
  if row.state = .completed ∨ row.state = .faulted then row
  else { row with state := .cancelled, generation := row.generation + 1, leaseUntil := none }

/-- The `UPDATE` of all slots of a schedule. -/
def cancelSlots (scheduleId : String) (s : ScheduleStore A) : ScheduleStore A :=
  { s with slots := s.slots.mapRows fun key row =>
      if key.1 = scheduleId then cancelledSlot row else row }

/-- The cancellation of an active schedule; an ended one is left alone. -/
def cancelRecord (scheduleId : String) (record : ScheduleRecord) :
    Transaction OwaError (ScheduleStore A) ScheduleRecord :=
  if record.status = .active then do
    let cancelled := { record with status := .cancelled, leaseUntil := none }
    saveSchedule cancelled
    write (cancelSlots scheduleId)
    return cancelled
  else pure record

/-- `cancel`. -/
def cancel (scheduleId : String) : Transaction OwaError (ScheduleStore A) ScheduleRecord := do
  let record ← requireSchedule sv scheduleId
  cancelRecord scheduleId record

end Schedules
