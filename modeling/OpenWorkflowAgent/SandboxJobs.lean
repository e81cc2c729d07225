/-
# Sandbox jobs and their dispatcher

`SandboxJobStore` of sandbox/jobs.py keeps one row per accepted job in each of three tables: the
admission, the delivery state with its events, and the ownership of the moment.  Every event is
also an immutable receipt.  `SandboxJobDispatcher.deliver` of sandbox/job_dispatcher.py claims a
job, stores a submit intent if the job is still `ready`, and only then calls the backend; whoever
finds a job in another state may inspect or cancel it, but not submit it.

A delivery is a procedure of several transactions, and every other party may act between two of
them.  What the backend answers, and what the profile checks say, is data of the delivery, and so
arbitrary.  The retained evidence of an admission and the authority of the deployment are fields of
the store that anybody may change.  `launches` logs the calls of `submit_job`.
-/
import OpenWorkflowAgent.Interleavings
import OpenWorkflowAgent.Tables
import OpenWorkflowAgent.JsonSizes

open Transaction

namespace SandboxJobs

/-! ## Records -/

/-- `_STATES`. -/
inductive JobStatus where
  | ready
  | submitting
  | accepted
  | uncertain
  | terminal
  deriving DecidableEq, Repr

/-- `_REASONS`. -/
inductive Uncertainty where
  | submitResponseLost
  | outcomeUnavailable
  | controllerLost
  | cancelResponseLost
  deriving DecidableEq, Repr

inductive ControlReason where
  | cancel
  | deadline
  deriving DecidableEq, Repr

inductive TerminalReason where
  | exited
  | cancel
  | deadline
  | notLaunched
  deriving DecidableEq, Repr

/-- The policies under which a job's events are stored as receipts. -/
inductive Policy where
  | admission
  | submit
  | accepted
  | terminal
  | control
  | controlAck
  | originalDeadline
  deriving DecidableEq, Repr

/-- `SandboxJobBackendBinding`. -/
structure BackendBinding where
  jobId : String
  requestDigest : String
  controllerId : String
  instanceId : String
  deriving DecidableEq, Repr

/-- `SandboxExecutionResult`.  `durationText` is the number `duration` as JSON has it. -/
structure ExecutionResult where
  executionId : String
  status : String
  exitCode : ℤ
  duration : ℚ
  durationText : String
  stdout : String
  stderr : String
  deriving DecidableEq

/-- `SandboxJobOriginalDeadlineProof`. -/
structure DeadlineProof where
  admissionDigest : String
  deadlineAt : ℚ
  observationDigest : String
  deriving DecidableEq

/-- What of an admission the store and the dispatcher read. -/
structure Admission where
  jobId : String
  requestDigest : String
  /-- `deployment_id` of the backend profile. -/
  deploymentId : String
  ownerPrincipal : Option String
  deadlineAt : ℚ
  /-- `admission_digest`. -/
  digest : String
  deriving DecidableEq

structure SubmitEvent where
  requestDigest : String
  submitId : String
  owner : String
  generation : ℕ
  deriving DecidableEq, Repr

structure ControlEvent where
  reason : ControlReason
  principal : Option String
  generation : ℕ
  deriving DecidableEq, Repr

structure AckEvent where
  binding : BackendBinding
  generation : ℕ
  /-- The control that `control_digest` digests. -/
  control : ControlEvent
  deriving DecidableEq, Repr

structure TerminalEvent where
  binding : Option BackendBinding
  outcome : Option ExecutionResult
  reason : TerminalReason
  deriving DecidableEq

structure DeadlineEvent where
  binding : BackendBinding
  outcome : ExecutionResult
  proof : DeadlineProof
  deriving DecidableEq

/-- `_value`: an event of a job with the job's id and admission digest. -/
structure Stamped (α : Type) where
  jobId : String
  admissionDigest : String
  value : α
  deriving DecidableEq

/-- The receipt of an admission or an event. -/
inductive Receipt where
  | admission (admission : Admission)
  | submit (event : Stamped SubmitEvent)
  | accepted (event : Stamped BackendBinding)
  | terminal (event : Stamped TerminalEvent)
  | control (event : Stamped ControlEvent)
  | controlAck (event : Stamped AckEvent)
  | originalDeadline (event : Stamped DeadlineEvent)
  deriving DecidableEq

/-- A row of `sandbox_job_delivery`. -/
structure Delivery where
  status : JobStatus
  submit : Option (Stamped SubmitEvent)
  backend : Option (Stamped BackendBinding)
  terminal : Option (Stamped TerminalEvent)
  uncertainty : Option Uncertainty
  control : Option (Stamped ControlEvent)
  controlAck : Option (Stamped AckEvent)
  deriving DecidableEq

/-- The row that an admission inserts. -/
def Delivery.admitted : Delivery := ⟨.ready, none, none, none, none, none, none⟩

/-- A row of `sandbox_job_ownership`. -/
structure Ownership where
  admissionDigest : String
  owner : String
  generation : ℕ
  expiresAt : ℚ
  deriving DecidableEq

/-- `SandboxJobLease`. -/
structure JobLease where
  jobId : String
  admissionDigest : String
  owner : String
  generation : ℕ
  expiresAt : ℚ
  deriving DecidableEq

/-- `SandboxJob`. -/
structure Job where
  admission : Admission
  delivery : Delivery
  deriving DecidableEq

structure JobStore where
  clock : ℚ
  jobs : Table String Admission
  delivery : Table String Delivery
  ownership : Table String Ownership
  receipts : Table (String × Policy) Receipt
  /-- The archive, the clocks and the request of the job's admission still verify. -/
  evident : String → Bool
  /-- `_authority` passes for the job. -/
  authorized : String → Bool
  /-- The calls of `submit_job`, each with its job and submit id. -/
  launches : List (String × String)

/-! ## Errors -/

/-- What leaves a step of a delivery. -/
inductive JobError where
  | raised (error : OwaError)
  /-- `CancelledError`. -/
  | cancelled
  /-- `TimeoutError` or `OSError`. -/
  | unreachable
  deriving DecidableEq

/-- `_failure()`. -/
def failure : JobError :=
  .raised (.plain .workflowExecutionError "sandbox job evidence is unavailable or inconsistent")

def conflict (message : String) : JobError := .raised (.plain .invocationStateConflict message)

def forbidden (message : String) : JobError := .raised (.plain .workflowExecutionError message)

def policyError (message : String) : JobError := .raised (.plain .toolError message)

/-! ## Reading a job -/

/-- `re.fullmatch(r"job_[a-f0-9]{64}", …)`. -/
def isJobId (identifier : String) : Bool :=
  identifier.startsWith "job_" && isSha256Hex (String.ofList (identifier.toList.drop 4))

/-- `_binding`. -/
def bindingAgrees (a : Admission) (b : BackendBinding) : Bool :=
  b.jobId = a.jobId ∧ b.requestDigest = a.requestDigest ∧ b.controllerId = a.deploymentId

def maxOutputBytes : ℕ := 262144

/-- `_outcome`. -/
def outcomeValid (identifier : String) (o : ExecutionResult) : Bool :=
  o.executionId = identifier ∧ o.status = "completed" ∧ -(2 ^ 31) ≤ o.exitCode ∧
    o.exitCode < 2 ^ 31 ∧ 0 ≤ o.duration ∧ o.stdout.utf8ByteSize + o.stderr.utf8ByteSize ≤ maxOutputBytes

/-- `asdict` of a binding. -/
def BackendBinding.json (b : BackendBinding) : Json :=
  .obj [("job_id", .str b.jobId), ("request_digest", .str b.requestDigest),
    ("controller_id", .str b.controllerId), ("instance_id", .str b.instanceId)]

/-- `asdict` of an outcome. -/
def ExecutionResult.json (o : ExecutionResult) : Json :=
  .obj [("execution_id", .str o.executionId), ("exit_code", .int o.exitCode),
    ("stdout", .str o.stdout), ("stderr", .str o.stderr), ("duration", .float o.duration),
    ("status", .str o.status)]

def TerminalReason.text : TerminalReason → String
  | .exited => "exited"
  | .cancel => "cancel"
  | .deadline => "deadline"
  | .notLaunched => "not_launched"

def terminalJson (e : Stamped TerminalEvent) : Json :=
  .obj [("job_id", .str e.jobId), ("admission_digest", .str e.admissionDigest),
    ("binding", (e.value.binding.map BackendBinding.json).getD .null),
    ("outcome", (e.value.outcome.map ExecutionResult.json).getD .null),
    ("reason", .str e.value.reason.text)]

def ControlReason.text : ControlReason → String
  | .cancel => "cancel"
  | .deadline => "deadline"

def controlJson (e : Stamped ControlEvent) : Json :=
  .obj [("job_id", .str e.jobId), ("admission_digest", .str e.admissionDigest),
    ("reason", .str e.value.reason.text), ("principal", (e.value.principal.map Json.str).getD .null),
    ("generation", .int e.value.generation)]

/-- The receipt of a value; all digests have the same size. -/
def receiptJson (value : Json) : Json :=
  .obj [("request_digest", .str (String.ofList (List.replicate 64 '0'))),
    ("owner", .str "sandbox-jobs-v1"), ("status", .str "completed"), ("output", value),
    ("error", .null), ("error_status_code", .null), ("operation_id", .null)]

/-- `_MAX_BYTES`. -/
def maxBytes : ℕ := 1048576

def receiptSize (e : Stamped TerminalEvent) : ℕ :=
  (receiptJson (terminalJson e)).dumpSize fun _ =>
    (e.value.outcome.map fun o => o.durationText.utf8ByteSize).getD 0

def controlSize (e : Stamped ControlEvent) : ℕ := (receiptJson (controlJson e)).dumpSize fun _ => 0

/-- The event carries the id and digest of its job. -/
def Stamped.belongs {α : Type} (a : Admission) (e : Stamped α) : Bool :=
  e.jobId = a.jobId ∧ e.admissionDigest = a.digest

/-- `_event`: every event of the row is stored as a receipt, and only those are; each belongs to
the job. -/
def eventsAgree (s : JobStore) (a : Admission) (d : Delivery) : Bool :=
  s.receipts.lookup (a.jobId, .submit) = d.submit.map .submit ∧
  s.receipts.lookup (a.jobId, .accepted) = d.backend.map .accepted ∧
  s.receipts.lookup (a.jobId, .terminal) = d.terminal.map .terminal ∧
  s.receipts.lookup (a.jobId, .control) = d.control.map .control ∧
  s.receipts.lookup (a.jobId, .controlAck) = d.controlAck.map .controlAck ∧
  d.submit.all (Stamped.belongs a) ∧ d.backend.all (Stamped.belongs a) ∧
  d.terminal.all (Stamped.belongs a) ∧ d.control.all (Stamped.belongs a) ∧
  d.controlAck.all (Stamped.belongs a)

def submitValid (a : Admission) (e : SubmitEvent) : Bool :=
  e.requestDigest = a.requestDigest ∧ isUuidHex e.submitId ∧ isUuidHex e.owner ∧ 1 ≤ e.generation

def controlValid (a : Admission) (e : ControlEvent) : Bool :=
  e.generation = 1 ∧ (e.reason = .cancel → e.principal ≠ none ∧ e.principal = a.ownerPrincipal)

def ackValid (d : Delivery) (e : AckEvent) : Bool :=
  match d.control, d.backend with
  | some control, some backend =>
    e.generation = control.value.generation ∧ e.binding = backend.value ∧ e.control = control.value
  | _, _ => false

/-- `_deadline_evidence`: whether the original deadline is proved for this outcome; a receipt for
another one is a failure. -/
def deadlineEvidence (s : JobStore) (a : Admission) (binding : BackendBinding)
    (outcome : ExecutionResult) : Except JobError Bool :=
  match s.receipts.lookup (a.jobId, .originalDeadline) with
  | none => .ok false
  | some (.originalDeadline e) =>
    if e.belongs a ∧ e.value.binding = binding ∧ e.value.outcome = outcome ∧
        e.value.proof.admissionDigest = a.digest ∧ e.value.proof.deadlineAt = a.deadlineAt ∧
        isSha256Hex e.value.proof.observationDigest ∧ a.deadlineAt ≤ s.clock then .ok true
    else .error failure
  | some _ => .error failure

/-- A stored proof of the original deadline fits the rest of the row. -/
def deadlineFits (s : JobStore) (a : Admission) (d : Delivery) : Bool :=
  match s.receipts.lookup (a.jobId, .originalDeadline) with
  | none => true
  | some (.originalDeadline e) =>
    d.submit.isSome ∧ deadlineEvidence s a e.value.binding e.value.outcome = .ok true ∧
      bindingAgrees a e.value.binding ∧ outcomeValid a.jobId e.value.outcome ∧
      d.backend.all fun b => b.value = e.value.binding
  | some _ => false

/-- The terminal event is that of a job that was never launched. -/
def unstarted (d : Delivery) : Bool := d.terminal.any fun e => e.value.reason = .notLaunched

/-- The columns that the status allows. -/
def statusFits (d : Delivery) : Bool :=
  (¬ (d.status = .ready ∧
        (d.submit.isSome ∨ d.backend.isSome ∨ d.terminal.isSome ∨ d.uncertainty.isSome)) ∧
    ¬ (d.status ≠ .ready ∧ d.submit = none) ∧
    (d.status = .terminal ↔ d.terminal.isSome) ∧
    (d.status = .uncertain ↔ d.uncertainty.isSome)) ∨
  (d.status = .terminal ∧ unstarted d ∧ d.submit = none ∧ d.backend = none ∧ d.uncertainty = none)

/-- The reason of a known outcome is backed by its evidence.  A proof of the original deadline that is
there for another outcome is a failure, whatever the control says. -/
def reasonFits (s : JobStore) (a : Admission) (d : Delivery) (binding : BackendBinding)
    (outcome : ExecutionResult) (reason : TerminalReason) : Bool :=
  reason ≠ .notLaunched ∧ (reason = .exited ∨
    (reason = .deadline ∧ deadlineEvidence s a binding outcome = .ok true) ∨
    ((reason = .deadline → deadlineEvidence s a binding outcome = .ok false) ∧
      d.controlAck.isSome ∧ d.control.any fun c =>
        (c.value.reason = .cancel ∧ reason = .cancel) ∨
          (c.value.reason = .deadline ∧ reason = .deadline)))

def terminalFits (s : JobStore) (a : Admission) (d : Delivery) (e : TerminalEvent) : Bool :=
  if e.reason = .notLaunched then
    e.binding = none ∧ e.outcome = none ∧ d.control.isSome ∧ d.controlAck = none ∧ d.submit = none
  else match e.binding, e.outcome with
    | some binding, some outcome =>
      reasonFits s a d binding outcome e.reason ∧ bindingAgrees a binding ∧
        outcomeValid a.jobId outcome ∧ d.backend.all fun b => b.value = binding
    | _, _ => false

/-- Everything `get` checks of a job's rows.  The receipts of a control and of an outcome may be too
large to be read; those of the other events are short. -/
def consistent (s : JobStore) (a : Admission) (d : Delivery) : Bool :=
  s.evident a.jobId ∧ s.receipts.lookup (a.jobId, .admission) = some (.admission a) ∧
  eventsAgree s a d ∧ (d.submit.all fun e => submitValid a e.value) ∧
  (d.control.all fun e => controlValid a e.value) ∧
  (d.controlAck.all fun e => ackValid d e.value) ∧ deadlineFits s a d ∧ statusFits d ∧
  ¬ (d.status = .accepted ∧ d.backend = none) ∧ (d.backend.all fun b => bindingAgrees a b.value) ∧
  (d.terminal.all fun e => terminalFits s a d e.value) ∧
  (d.control.all fun e => controlSize e ≤ maxBytes) ∧ d.terminal.all fun e => receiptSize e ≤ maxBytes

/-- What `get` answers. -/
def recordOf (s : JobStore) (identifier : String) : Except JobError (Option Job) :=
  if isJobId identifier = false then .error failure
  else match s.jobs.lookup identifier, s.delivery.lookup identifier with
    | none, none => .ok none
    | some a, some d =>
      if a.jobId = identifier ∧ consistent s a d then .ok (some ⟨a, d⟩) else .error failure
    | _, _ => .error failure

/-! ## The operations of the store -/

abbrev JobTransaction (α : Type) := Transaction JobError JobStore α

def getJob (identifier : String) : JobTransaction (Option Job) := do
  let record ← read fun s => recordOf s identifier
  orRaiseError record

def requireJob (identifier : String) : JobTransaction Job := do
  let job ← getJob identifier
  orRaise job failure

/-- `_authority`. -/
def authority (identifier : String) : JobTransaction Unit := do
  let authorized ← read fun s => s.authorized identifier
  raiseIf (authorized = false) (conflict "sandbox job deployment authority has changed")

/-- The lease is the one of the ownership row, and has not expired. -/
def JobStore.holds (s : JobStore) (lease : JobLease) : Bool :=
  (s.ownership.lookup lease.jobId).any fun o =>
    o.admissionDigest = lease.admissionDigest ∧ o.owner = lease.owner ∧
      o.generation = lease.generation ∧ s.clock < o.expiresAt ∧ o.expiresAt ≤ s.clock + 3600

/-- The fence of `_transaction(lease)`. -/
def fence (lease : JobLease) : JobTransaction Unit := do
  let held ← read fun s => s.holds lease
  raiseIf (held = false) (conflict "sandbox job ownership has expired or changed")

/-- `_owned`. -/
def owned (lease : JobLease) : JobTransaction Job := do
  let job ← requireJob lease.jobId
  raiseIf (job.admission.digest ≠ lease.admissionDigest) failure
  authority lease.jobId
  pure job

/-- The first look at a job in `claim`. -/
def peek (identifier : String) : JobTransaction Job := do
  let job ← requireJob identifier
  authority identifier
  pure job

/-- The ownership row after a claim, if it is free or has expired. -/
def claimed (s : JobStore) (a : Admission) (owner : String) (seconds : ℚ) : Option Ownership :=
  match s.ownership.lookup a.jobId with
  | none => some ⟨a.digest, owner, 1, s.clock + seconds⟩
  | some o =>
    if o.admissionDigest = a.digest ∧ 0 < o.generation ∧ o.expiresAt ≤ s.clock then
      some ⟨a.digest, owner, o.generation + 1, s.clock + seconds⟩
    else none

def Ownership.lease (o : Ownership) (identifier : String) : JobLease :=
  ⟨identifier, o.admissionDigest, o.owner, o.generation, o.expiresAt⟩

def setOwnership (identifier : String) (o : Ownership) : JobTransaction Unit :=
  write fun s => { s with ownership := s.ownership.put identifier o }

/-- The transaction of `claim`, with the job as `claim` first saw it. -/
def claimJob (job : Job) (owner : String) (seconds : ℚ) : JobTransaction JobLease := do
  let current ← requireJob job.admission.jobId
  raiseIf (current.admission.digest ≠ job.admission.digest) failure
  authority job.admission.jobId
  let row ← read fun s => claimed s job.admission owner seconds
  let ownership ← orRaise row (conflict "sandbox job ownership is unavailable")
  setOwnership job.admission.jobId ownership
  pure (ownership.lease job.admission.jobId)

/-- `renew`. -/
def renew (lease : JobLease) (seconds : ℚ) : JobTransaction JobLease := do
  fence lease
  let _ ← requireJob lease.jobId
  authority lease.jobId
  let now ← read fun s => s.clock
  let row ← read fun s => s.ownership.lookup lease.jobId
  let ownership ← orRaise row failure
  setOwnership lease.jobId { ownership with expiresAt := now + seconds }
  pure ({ ownership with expiresAt := now + seconds : Ownership }.lease lease.jobId)

/-- `verify`. -/
def verify (lease : JobLease) : JobTransaction Job := do
  fence lease
  owned lease

/-- `release`. -/
def release (lease : JobLease) : JobTransaction Unit := do
  fence lease
  let row ← read fun s => s.ownership.lookup lease.jobId
  let ownership ← orRaise row failure
  setOwnership lease.jobId { ownership with expiresAt := 0 }

/-- `insert_completed_receipt`: an existing receipt has to be the same. -/
def insertReceipt (identifier : String) (policy : Policy) (receipt : Receipt) :
    JobTransaction Unit := do
  let existing ← read fun s => s.receipts.lookup (identifier, policy)
  raiseIf (existing ≠ none ∧ existing ≠ some receipt)
    (forbidden "workflow effect completed outcome is inconsistent")
  write fun s => { s with receipts := s.receipts.insertNew (identifier, policy) receipt }

/-- `UPDATE sandbox_job_delivery SET …` of one job. -/
def updateDelivery (identifier : String) (f : Delivery → Delivery) : JobTransaction Unit :=
  write fun s => { s with delivery := s.delivery.updateWhere identifier (fun _ => true) f }

def stamp {α : Type} (job : Job) (value : α) : Stamped α :=
  ⟨job.admission.jobId, job.admission.digest, value⟩

/-- `begin_submit`. -/
def beginSubmit (lease : JobLease) (submitId : String) : JobTransaction Unit := do
  fence lease
  let job ← owned lease
  raiseIf (job.delivery.status ≠ .ready ∨ job.delivery.control ≠ none)
    (forbidden "sandbox job requires inspection; a new launch is forbidden")
  let now ← read fun s => s.clock
  raiseIf (job.admission.deadlineAt ≤ now)
    (forbidden "sandbox job original deadline has expired")
  let event := stamp job (SubmitEvent.mk job.admission.requestDigest submitId lease.owner
    lease.generation)
  insertReceipt lease.jobId .submit (.submit event)
  updateDelivery lease.jobId fun d => { d with submit := some event, status := .submitting }

/-- `record_accepted`. -/
def recordAccepted (lease : JobLease) (binding : BackendBinding) : JobTransaction Unit := do
  fence lease
  let job ← owned lease
  raiseIf (bindingAgrees job.admission binding = false) failure
  raiseIf (job.delivery.status = .ready ∨ job.delivery.status = .terminal)
    (conflict "sandbox job cannot accept a new backend launch")
  let event := stamp job binding
  insertReceipt lease.jobId .accepted (.accepted event)
  updateDelivery lease.jobId fun d =>
    { d with backend := some event, status := .accepted, uncertainty := none }
  let _ ← getJob lease.jobId
  pure ()

/-- `mark_uncertain`. -/
def markUncertain (lease : JobLease) (reason : Uncertainty) : JobTransaction Unit := do
  fence lease
  let job ← owned lease
  raiseIf (job.delivery.status = .ready ∨ job.delivery.status = .terminal)
    (conflict "sandbox job uncertainty requires a prior submit")
  updateDelivery lease.jobId fun d => { d with status := .uncertain, uncertainty := some reason }

/-- The control may be requested: by the owner, or because the deadline has passed. -/
def controlAllowed (a : Admission) (now : ℚ) (reason : ControlReason) (principal : Option String) :
    Except JobError Unit :=
  match reason with
  | .cancel =>
    if principal = none ∨ principal ≠ a.ownerPrincipal then
      .error (conflict "sandbox job control is not authorized")
    else .ok ()
  | .deadline =>
    if now < a.deadlineAt then .error (conflict "sandbox job deadline control is not due")
    else .ok ()

/-- The first control intent of a job is stored; later ones have to be the same. -/
def storeControl (job : Job) (control : Stamped ControlEvent) : JobTransaction Unit :=
  match job.delivery.control with
  | some stored =>
    raiseIf (stored ≠ control) (conflict "sandbox job first control intent is immutable")
  | none => do
    raiseIf (job.delivery.status = .terminal)
      (conflict "sandbox job already has a terminal outcome")
    raiseIf (maxBytes < (controlJson control).dumpSize fun _ => 0) failure
    insertReceipt job.admission.jobId .control (.control control)
    updateDelivery job.admission.jobId fun d => { d with control := some control }

/-- `request_control`. -/
def requestControl (lease : JobLease) (reason : ControlReason) (principal : Option String) :
    JobTransaction Unit := do
  fence lease
  let job ← owned lease
  let now ← read fun s => s.clock
  orRaiseError (controlAllowed job.admission now reason principal)
  storeControl job (stamp job ⟨reason, principal, 1⟩)

/-- `acknowledge_control`. -/
def acknowledgeControl (lease : JobLease) (binding : BackendBinding) (generation : ℕ) :
    JobTransaction Unit := do
  fence lease
  let job ← owned lease
  let control ← orRaise job.delivery.control failure
  raiseIf (control.value.generation ≠ generation ∨
    (job.delivery.backend.all fun b => b.value ≠ binding)) failure
  let event := stamp job (AckEvent.mk binding generation control.value)
  insertReceipt lease.jobId .controlAck (.controlAck event)
  updateDelivery lease.jobId fun d => { d with controlAck := some event }

/-- `settle_unstarted_control`. -/
def settleUnstartedControl (lease : JobLease) : JobTransaction Unit := do
  fence lease
  let job ← owned lease
  raiseIf (job.delivery.status ≠ .ready ∨ job.delivery.submit ≠ none ∨
    job.delivery.control = none) (conflict "sandbox job may already have launched")
  let event := stamp job (TerminalEvent.mk none none .notLaunched)
  insertReceipt lease.jobId .terminal (.terminal event)
  updateDelivery lease.jobId fun d => { d with terminal := some event, status := .terminal }
  let _ ← requireJob lease.jobId
  pure ()

/-- `record_original_deadline`. -/
def recordOriginalDeadline (lease : JobLease) (binding : BackendBinding)
    (outcome : ExecutionResult) (proof : DeadlineProof) : JobTransaction Unit := do
  raiseIf (outcomeValid lease.jobId outcome = false) failure
  fence lease
  let job ← owned lease
  let now ← read fun s => s.clock
  raiseIf (bindingAgrees job.admission binding = false ∨ job.delivery.submit = none ∨
    proof.admissionDigest ≠ job.admission.digest ∨ proof.deadlineAt ≠ job.admission.deadlineAt ∨
    now < job.admission.deadlineAt ∨ (job.delivery.backend.any fun b => b.value ≠ binding)) failure
  insertReceipt lease.jobId .originalDeadline
    (.originalDeadline (stamp job ⟨binding, outcome, proof⟩))
  let evidence ← read fun s => deadlineEvidence s job.admission binding outcome
  let _ ← orRaiseError evidence
  pure ()

/-- The first terminal outcome of a job is stored; a later one has to be the same.  `_encoded` and
the `_decode` of the receipt refuse a record that is too large. -/
def storeTerminal (job : Job) (event : Stamped TerminalEvent) : JobTransaction Unit :=
  match job.delivery.terminal with
  | some stored =>
    raiseIf (stored ≠ event) (conflict "sandbox job first terminal outcome is immutable")
  | none => do
    raiseIf ((terminalJson event).valid = false) (.raised invalidExpressionData)
    raiseIf (maxBytes < receiptSize event) failure
    insertReceipt job.admission.jobId .terminal (.terminal event)
    updateDelivery job.admission.jobId fun d =>
      { d with terminal := some event, status := .terminal, uncertainty := none }
    let _ ← requireJob job.admission.jobId
    pure ()

/-- `record_terminal`. -/
def recordTerminal (lease : JobLease) (binding : BackendBinding) (outcome : ExecutionResult)
    (reason : TerminalReason) : JobTransaction Unit := do
  raiseIf (outcomeValid lease.jobId outcome = false) failure
  fence lease
  let job ← owned lease
  raiseIf (bindingAgrees job.admission binding = false ∨ job.delivery.status = .ready ∨
    (job.delivery.backend.any fun b => b.value ≠ binding)) failure
  let fits ← read fun s => reasonFits s job.admission job.delivery binding outcome reason
  raiseIf (fits = false) failure
  storeTerminal job (stamp job ⟨some binding, some outcome, reason⟩)

/-! ## Admission -/

/-- What an admission brings: the record, and what the checks of the invocation, the definition,
the deadline and the profile say. -/
structure AdmissionRequest where
  admission : Admission
  allowed : Except JobError Unit
  maxPending : ℕ

def pendingJobs (s : JobStore) : ℕ :=
  (s.delivery.selectRows fun _ d => d.status ≠ .terminal).length

def insertJob (r : AdmissionRequest) : JobTransaction Unit := do
  let taken ← read fun s => s.receipts.lookup (r.admission.jobId, .admission)
  raiseIf (taken ≠ none) failure
  let pending ← read pendingJobs
  raiseIf (r.maxPending ≤ pending) (forbidden "sandbox job admission capacity is exhausted")
  write fun s =>
    { s with
      jobs := s.jobs.put r.admission.jobId r.admission
      delivery := s.delivery.put r.admission.jobId .admitted
      receipts := s.receipts.put (r.admission.jobId, .admission) (.admission r.admission) }
  let _ ← requireJob r.admission.jobId
  pure ()

/-- A job that is there already, or a new one. -/
def admitNew (r : AdmissionRequest) : Option Job → JobTransaction Unit
  | some prior =>
    raiseIf (prior.admission ≠ r.admission) (conflict "sandbox job cannot be rebound")
  | none => insertJob r

/-- The transaction of `admit`. -/
def admitJob (r : AdmissionRequest) : JobTransaction Unit := do
  orRaiseError r.allowed
  let prior ← getJob r.admission.jobId
  admitNew r prior

/-! ## A delivery -/

/-- `SandboxJobObservation`. -/
inductive ObservationState where
  | accepted
  | running
  | terminal
  | unknown
  deriving DecidableEq

structure Observation where
  state : ObservationState
  binding : Option BackendBinding
  outcome : Option ExecutionResult
  reason : TerminalReason
  controlAckGeneration : Option ℕ
  originalDeadline : Option DeadlineProof

/-- One delivery: the job, the bounds of the dispatcher, the ids that `uuid4` draws, and what the
profile checks and the backend answer. -/
structure DeliveryCall where
  identifier : String
  leaseSeconds : ℚ
  owner : String
  submitId : String
  /-- `validate_job_profile_from_admission`. -/
  profile : Except JobError Unit
  /-- `validate_job_profile`, before the first and the second call of the backend. -/
  launchProfile : Except JobError Unit
  controlProfile : Except JobError Unit
  /-- What `submit_job` or `inspect_job` answers. -/
  observed : Except JobError Observation
  /-- What `cancel_job` answers. -/
  controlled : Except JobError Observation

/-- What a delivery remembers: its lease, and whether it stored the submit intent. -/
structure DeliveryMemory where
  lease : Option JobLease
  submitting : Bool

abbrev Run (α : Type) := Procedure JobError DeliveryMemory JobStore α

def heldLease : Run JobLease := do
  let memory ← get
  orRaise memory.lease failure

def withLease {α : Type} (t : JobLease → JobTransaction α) : Run α := do
  let lease ← heldLease
  Procedure.transaction (t lease)

/-- `claim`. -/
def claim (c : DeliveryCall) : Run Unit := do
  let job ← Procedure.transaction (peek c.identifier)
  let lease ← Procedure.transaction (claimJob job c.owner c.leaseSeconds)
  set (DeliveryMemory.mk (some lease) false)

/-- `lease = self.store.renew(lease, …)`. -/
def renewLease (c : DeliveryCall) : Run Unit := do
  let lease ← withLease fun lease => renew lease c.leaseSeconds
  let memory ← get
  set { memory with lease := some lease }

/-- `_current`: the launch descriptor needs a stored submit intent. -/
def current (profile : Except JobError Unit) : Run Job := do
  let job ← withLease verify
  raiseIf (job.delivery.submit = none) (policyError "sandbox job has no bound submission intent")
  orRaiseError profile
  pure job

/-- The control acknowledgement of an observation. -/
def recordAck (binding : BackendBinding) : Option ℕ → Run Unit
  | some generation => withLease fun lease => acknowledgeControl lease binding generation
  | none => pure ()

def recordDeadline (binding : BackendBinding) (outcome : ExecutionResult) :
    Option DeadlineProof → Run Unit
  | some proof => withLease fun lease => recordOriginalDeadline lease binding outcome proof
  | none => pure ()

def recordOutcome (o : Observation) (binding : BackendBinding) : Run Unit :=
  if o.state = .terminal then do
    let outcome ← orRaise o.outcome
      (policyError "sandbox job terminal observation has no known outcome")
    recordDeadline binding outcome o.originalDeadline
    withLease fun lease => recordTerminal lease binding outcome o.reason
  else pure ()

/-- `_record`. -/
def record (o : Observation) : Run Unit :=
  if o.state = .unknown then withLease fun lease => markUncertain lease .outcomeUnavailable
  else do
    let binding ← orRaise o.binding
      (policyError "sandbox job observation has no backend identity")
    withLease fun lease => recordAccepted lease binding
    recordAck binding o.controlAckGeneration
    recordOutcome o binding

/-- The call of `submit_job` is logged. -/
def logLaunch (c : DeliveryCall) (s : JobStore) : JobStore :=
  { s with launches := (c.identifier, c.submitId) :: s.launches }

/-- `await self.manager.submit_job(launch)`. -/
def submitJob (c : DeliveryCall) : Run Observation := do
  Procedure.transaction (write (logLaunch c))
  orRaiseError c.observed

/-- Submit, or inspect a job that was submitted before. -/
def submitOrInspect (c : DeliveryCall) (submitting : Bool) : Run Observation :=
  if submitting then submitJob c else orRaiseError c.observed

/-- The control of a job with a known backend binding. -/
def applyControl (c : DeliveryCall) : Run Unit := do
  renewLease c
  let _ ← current c.controlProfile
  let observation ← orRaiseError c.controlled
  record observation

def afterObservation (c : DeliveryCall) : Option Job → Run Unit
  | none => pure ()
  | some job =>
    if job.delivery.status = .terminal ∨ job.delivery.control = none ∨
        job.delivery.backend = none then pure ()
    else applyControl c

/-- Call the backend under a fresh lease, and record what it answers. -/
def observe (c : DeliveryCall) (submitting : Bool) : Run Unit := do
  renewLease c
  let _ ← current c.launchProfile
  let observation ← submitOrInspect c submitting
  record observation
  let job ← Procedure.transaction (getJob c.identifier)
  afterObservation c job

/-- Store the submit intent, then call the backend. -/
def submit (c : DeliveryCall) : Run Unit := do
  withLease fun lease => beginSubmit lease c.submitId
  let memory ← get
  set { memory with submitting := true }
  observe c true

def deadlineControl (c : DeliveryCall) (job : Job) : Run Job := do
  let now ← Procedure.transaction (read fun s => s.clock)
  if job.admission.deadlineAt ≤ now ∧ job.delivery.control = none then do
    withLease fun lease => requestControl lease .deadline none
    let again ← Procedure.transaction (getJob c.identifier)
    orRaise again (policyError "sandbox job disappeared during deadline control")
  else pure job

def attendState (c : DeliveryCall) (job : Job) : Run Unit :=
  if job.delivery.status = .ready ∧ job.delivery.control ≠ none then
    withLease settleUnstartedControl
  else if job.delivery.status = .ready then submit c
  else observe c false

/-- The job as the delivery found it. -/
def attendJob (c : DeliveryCall) : Option Job → Run Unit
  | none => pure ()
  | some job =>
    if job.delivery.status = .terminal then pure ()
    else do
      orRaiseError c.profile
      let job ← deadlineControl c job
      attendState c job

def attend (c : DeliveryCall) : Run Unit := do
  let job ← Procedure.transaction (getJob c.identifier)
  attendJob c job

/-- The `except` clauses: a lost reply leaves the job uncertain. -/
def handle : JobError → Run Unit
  | .unreachable => do
    let memory ← get
    withLease fun lease => markUncertain lease
      (if memory.submitting then .submitResponseLost else .outcomeUnavailable)
  | e => throw e

/-- `suppress(InvocationStateConflict)`. -/
def suppressConflict : JobError → Run Unit
  | .raised e => if e.kind = .invocationStateConflict then pure () else throw (.raised e)
  | e => throw e

/-- The body of `deliver` after the claim, its outcome kept for the `finally` clause. -/
def attended (c : DeliveryCall) : Run (Except JobError Unit) :=
  tryCatch (do
    tryCatch (attend c) handle
    pure (.ok ())) fun e => pure (.error e)

/-- `deliver`. -/
def deliver (c : DeliveryCall) : Run Unit := do
  claim c
  let outcome ← attended c
  tryCatch (withLease release) suppressConflict
  orRaiseError outcome

/-! ## The calls of the protocol -/

/-- A party that claims a job to cancel it in the name of a principal. -/
structure ControlCall where
  delivery : DeliveryCall
  principal : Option String

/-- Everything that is done to jobs. -/
inductive Call where
  | admitJob (request : AdmissionRequest)
  | deliver (delivery : DeliveryCall)
  | control (request : ControlCall)

/-- A cancellation on request. -/
def cancelJob (r : ControlCall) : Run Unit := do
  claim r.delivery
  withLease fun lease => requestControl lease .cancel r.principal
  withLease release

def body : Call → Run Unit
  | .admitJob r => Procedure.transaction (admitJob r)
  | .deliver c => deliver c
  | .control r => cancelJob r

end SandboxJobs
