/-
# Running an effect

`WorkflowExecutor._run_effect_scoped`: one attempt to run an external action under
the effect journal.  An attempt draws a fresh owner, stores its intent with
`begin`, and starts the action only if the journal answers its own pending intent.

What the attempt is told by everything outside the journal (admissions, the receipt
observer, the recovery service, the action itself) is data of the attempt, and so
arbitrary.  What those parties write to the journal is interference.  Starting the
action is one atomic step that is logged in the auxiliary `dispatched`.

`receipt` of the source, the answer of the journal to the request of the attempt, is
the memory of the procedure.
-/
import OpenWorkflowAgent.Interleavings
import OpenWorkflowAgent.EffectJournal

open Transaction EffectJournal

namespace RunEffect

/-! ## Outcomes of the action -/

/-- An error of the action: `code` and `status_code` of its class, and itself. -/
structure ActionError where
  error : OwaError
  code : String
  statusCode : ℤ

/-- `OwaError.as_dict`. -/
def ActionError.asDict (e : ActionError) : Json :=
  .obj [("code", .str e.code), ("message", .str e.error.message), ("details", .obj e.error.details)]

/-- How an action fails, by the `except` clause that handles it. -/
inductive DispatchFailure where
  /-- `CancelledError`, and whether an active deadline had expired. -/
  | cancelled (expired : Bool)
  /-- A request that was sent without a known reply. -/
  | uncertain (error : OwaError)
  /-- `InvocationCancelled` or `InvocationStateConflict`. -/
  | interrupted (error : OwaError)
  | failed (error : ActionError)
  /-- An exception outside the error contract. -/
  | unexpected

/-- The failure as it propagates where nothing handles it. -/
def DispatchFailure.raised : DispatchFailure → OwaError
  | .cancelled _ => .plain .cancelledError ""
  | .uncertain error => error
  | .interrupted error => error
  | .failed e => e.error
  | .unexpected => .plain .otherException ""

/-! ## An attempt -/

/-- The admission of an external description before the action. -/
structure Admission where
  /-- The caller passed a dispatch for admitted descriptions. -/
  context : Bool
  /-- The admission service is installed. -/
  service : Bool
  prepare : Except OwaError (Option (EffectIdentity × EffectReceipt))

/-- The recovery service for HTTP calls. -/
structure Recovery where
  /-- It uses the HTTP transport of the services. -/
  bound : Bool
  /-- `admit`: the business receipt and the trust receipt. -/
  admitReceipts : Except OwaError (Option (EffectReceipt × EffectReceipt))
  /-- `recover`: the resolved receipt and its proof. -/
  recover : Except OwaError (Option (EffectReceipt × EffectReceipt))

/-- One attempt: its arguments, the owner that `uuid4` draws for it, and what
everything outside the journal answers. -/
structure Attempt where
  /-- The services have an effect journal. -/
  journaled : Bool
  call : String
  identity : EffectIdentity
  /-- `effect_request_digest(call, payload)`, which raises on invalid data. -/
  requestDigest : Except OwaError String
  operationId : String
  lease : Option ExecutionLease
  owner : String
  /-- `_task_reference` of the state, for the details of errors. -/
  taskReference : Json
  taskName : String
  /-- `_RECONCILE_EXPIRED_RETRY`. -/
  reconcileExpired : Bool
  mapping : Bool
  /-- The payload names an agent card. -/
  agentCard : Bool
  openapi : Admission
  a2a : Admission
  recovery : Option Recovery
  nativeMemory : Bool
  /-- `memory_writes.has_dispatched`. -/
  memoryDispatched : Bool
  authorize : Except OwaError Unit
  /-- The receipt observer; no observer answers `ok`. -/
  observe : EffectIdentity → EffectReceipt → Except OwaError Unit
  /-- `execution_authorizations.intent_receipt`. -/
  auditedIntent : Except OwaError (Option (EffectIdentity × EffectReceipt))
  dispatch : Except DispatchFailure Json
  /-- `_checkpoint_effect_completion` raises: a host drain or a lost ownership. -/
  interrupted : Bool
  protectedBusiness : Except OwaError Bool
  /-- The business key of a script with an admitted source is this identity. -/
  sourceScript : Bool
  childDependency : Except OwaError (Option ChildInvocationDependency)

def protocolCalls : List String := ["http", "mcp", "a2a", "openapi", "grpc"]

namespace Attempt

variable (c : Attempt)

/-- A `_EffectRecoveryRequired` that names the task. -/
def recoveryRequired (message : String) : OwaError :=
  ⟨.effectRecoveryRequired, message, [("instance", c.taskReference)]⟩

def httpRecovery : Option Recovery := if c.call = "http" then c.recovery else none

/-- What `_notify_receipt` raises, if the observer does. -/
def notified (identity : EffectIdentity) (receipt : EffectReceipt) : Except OwaError Unit :=
  match c.observe identity receipt with
  | .ok u => .ok u
  | .error e =>
    if e.kind = .invocationStateConflict ∨ e.kind = .cancelledError then .error e
    else .error (c.recoveryRequired "workflow action recovery evidence could not be retained")

/-- The result of the action; a result that is not expression data is a failure. -/
def outcome : Except DispatchFailure Json :=
  match c.dispatch with
  | .error failure => .error failure
  | .ok result =>
    if result.valid then .ok result
    else .error (.failed ⟨invalidExpressionData, "expression_error", 400⟩)

end Attempt

def kindOfCode (code : String) : ErrorKind :=
  if code = "invocation_cancelled" then .invocationCancelled
  else if code = "workflow_semantic_error" then .workflowSemanticError
  else if code = "unsupported_workflow_feature" then .unsupportedWorkflowFeature
  else if code = "expression_error" then .expressionError
  else if code = "tool_error" then .toolError
  else if code = "model_error" then .modelError
  else if code = "agent_error" then .agentError
  else if code = "knowledge_error" then .knowledgeError
  else if code = "memory_error" then .memoryError
  else .workflowExecutionError

def storedError (error : Json) : OwaError :=
  match error.field? "code", error.field? "message", error.field? "details" with
  | some (.str code), some (.str message), some (.obj details) =>
    ⟨kindOfCode code, message, details⟩
  | _, _, _ => .plain .workflowExecutionError ""

/-- `_effect_result`: the stored output, or the stored error raised. -/
def effectResult (receipt : EffectReceipt) : Except OwaError Json :=
  match receipt.error with
  | some error => .error (storedError error)
  | none => .ok receipt.output

/-! ## The procedure -/

/-- A part of an attempt; the memory is the answer of the journal. -/
abbrev Run (α : Type) := Procedure OwaError (Option EffectReceipt) JournalStore α

variable (sv : JournalServices) (c : Attempt)

/-- `_notify_receipt`. -/
def notify (identity : EffectIdentity) (receipt : EffectReceipt) : Run Unit :=
  orRaiseError (c.notified identity receipt)

/-- Report a resolved receipt and answer with it. -/
def settle (identity : EffectIdentity) (receipt : EffectReceipt) : Run Json := do
  notify c identity receipt
  orRaiseError (effectResult receipt)

def startAction (s : JournalStore) : JournalStore :=
  { s with
    dispatched := (sv.key c.identity, c.owner) :: s.dispatched }

/-- The attempt without a journal. -/
def runUnjournaled : Run Json := do
  raiseIf (c.reconcileExpired = true)
    (.plain .workflowExecutionError "retry budget expired before a new action")
  Procedure.transaction (write (startAction sv c))
  match c.dispatch with
  | .ok result => pure result
  | .error (.uncertain e) => throw ⟨.effectRecoveryRequired, e.message, e.details⟩
  | .error failure => throw failure.raised

/-- Report the receipt of an admitted description, if there is one. -/
def notifyAdmitted (admission : Option (EffectIdentity × EffectReceipt)) : Run Unit :=
  match admission with
  | some admitted => notify c admitted.1 admitted.2
  | none => pure ()

def admitOpenapi : Run Unit :=
  if c.call = "openapi" ∧ c.mapping = true then do
    raiseIf (c.openapi.context = false) (.plain .effectRecoveryRequired
      "OpenAPI operation admission context is unavailable")
    raiseIf (c.openapi.service = false) (.plain .effectRecoveryRequired
      "OpenAPI operation admission service is unavailable")
    let prepared ← orRaiseError c.openapi.prepare
    raiseIf (prepared = none) (.plain .effectRecoveryRequired
      "OpenAPI operation has no admitted description")
    notifyAdmitted c prepared
  else pure ()

/-- An expired retry admits no new action. -/
def checkExpired : Run Unit :=
  if c.reconcileExpired = true then do
    let known ← Procedure.transaction (getReceipt sv c.identity)
    raiseIf (known = none)
      (.plain .workflowExecutionError "retry budget expired before a new action")
  else pure ()

/-- The admission of an A2A agent card. -/
def admitA2a : Run Unit :=
  if c.call = "a2a" ∧ c.mapping = true ∧ c.agentCard = true then do
    raiseIf (c.a2a.context = false) (.plain .effectRecoveryRequired
      "A2A Agent Card admission context is unavailable")
    checkExpired sv c
    raiseIf (c.a2a.service = false) (.plain .effectRecoveryRequired
      "A2A Agent Card admission service is unavailable")
    let prepared ← orRaiseError c.a2a.prepare
    notifyAdmitted c prepared
  else pure ()

/-- The attempt of an expired retry: only a known outcome is answered. -/
def reconcile : Run Json := do
  let found ← Procedure.transaction (getReceipt sv c.identity)
  let known ← orRaise found
    (.plain .workflowExecutionError "retry budget expired before a new action")
  raiseIf (known.status = .pending)
    (c.recoveryRequired "workflow action has an unresolved execution intent")
  let digest ← orRaiseError c.requestDigest
  raiseIf (known.requestDigest ≠ digest) (.plain .effectRecoveryRequired
    "workflow action request differs during expired retry recovery")
  set (some known)
  settle c c.identity known

/-- The checks between the admissions and the intent. -/
def authorizeCall : Run Unit := do
  raiseIf (c.httpRecovery.any (fun r => !r.bound)) (.plain .effectRecoveryRequired
    "external action recovery transport binding changed")
  orRaiseError (if c.call ∈ protocolCalls then c.authorize else .ok ())

/-- `recovery.admit`, for the calls with a recovery service. -/
def admitted : Except OwaError (Option (EffectReceipt × EffectReceipt)) :=
  match c.httpRecovery with
  | some recovery => recovery.admitReceipts
  | none => .ok none

/-- The receipt of an admitted call, or the one of the intent; and whether the call
was admitted. -/
def receiptOf (admitted : Option (EffectReceipt × EffectReceipt)) :
    Run (EffectReceipt × Bool) :=
  match admitted with
  | some pair => do
      notify c (c.identity.withOperation "policy:external-action-admission:v1" (by decide)) pair.2
      return (pair.1, true)
  | none => do
      let digest ← orRaiseError c.requestDigest
      let receipt ← EffectJournal.begin sv c.identity digest c.owner (some c.operationId) c.lease
      return (receipt, false)

/-- A `WorkflowExecutionError` leaves the attempt as `_EffectRecoveryRequired`. -/
def asRecoveryRequired (e : OwaError) : OwaError :=
  if e.kind.isWorkflowExecution then ⟨.effectRecoveryRequired, e.message, e.details⟩ else e

/-- Admit the call or store its intent. -/
def admitOrBegin : Run (EffectReceipt × Bool) :=
  tryCatch
    (do
      let pair ← orRaiseError (admitted c)
      receiptOf sv c pair)
    fun e => throw (asRecoveryRequired e)

/-- Report the audited intent of a pending receipt. -/
def notifyAudited : Run Unit := do
  let audited ← orRaiseError c.auditedIntent
  notifyAdmitted c audited

/-- The errors of `recovery.recover` as they leave the attempt. -/
def recoverError (e : OwaError) : OwaError :=
  if e.kind = .invocationStateConflict ∨ e.kind = .cancelledError then e
  else if e.kind.isWorkflowExecution then ⟨.effectRecoveryRequired, e.message, e.details⟩
  else .plain .effectRecoveryRequired "external action recovery outcome could not be reconciled"

/-- What the recovery service knows of an admitted call. -/
def recovered (wasAdmitted : Bool) : Except OwaError (Option (EffectReceipt × EffectReceipt)) :=
  match c.httpRecovery, wasAdmitted with
  | some recovery, true => match recovery.recover with
    | .ok known => .ok known
    | .error e => .error (recoverError e)
  | _, _ => .ok none

/-- The pending intent of another owner: answer a recovered outcome, adopt the intent
of a native memory call, and otherwise raise.  `none` goes on to the action. -/
def resolveForeign (wasAdmitted : Bool) : Run (Option Json) := do
  let known ← orRaiseError (recovered c wasAdmitted)
  match known with
  | some pair => do
      notify c (c.identity.withOperation "policy:external-action-recovery:v1" (by decide)) pair.2
      let result ← settle c c.identity pair.1
      return some result
  | none => do
      raiseIf (c.nativeMemory = false)
        (c.recoveryRequired "workflow action has an unresolved execution intent")
      return none

/-! ## The action and its outcome -/

def resultOutcome (result : Json) : Outcome := ⟨result, none, none, some c.operationId, none⟩

def faultOutcome (e : ActionError) : Outcome :=
  ⟨.null, some e.asDict, some e.statusCode, some c.operationId, none⟩

/-- The completion that retains the dependency of a child workflow. -/
def finishWithChild (owner : String) (o : Outcome) : Run EffectReceipt := do
  let child ← orRaiseError c.childDependency
  EffectJournal.finish sv c.identity owner { o with childInvocation := child }

def finishProtected (owner : String) (o : Outcome) : Run EffectReceipt := do
  let child ← orRaiseError c.childDependency
  Procedure.transaction
    (finishOwned sv c.identity owner c.lease { o with childInvocation := child })

/-- The completion of a script whose source was admitted. -/
def finishSourceScript (owner : String) (o : Outcome) : Run EffectReceipt := do
  let policy ← Procedure.transaction (getReceipt sv
    (c.identity.withOperation "policy:executable-source:v1" (by decide)))
  raiseIf (¬ policy.any (fun admitted => admitted.status = .completed))
    (.plain .workflowExecutionError "executable source authority is unavailable")
  Procedure.transaction (finishOwned sv c.identity owner c.lease o)

/-- The completion by the profile of the action. -/
def finishByProfile (owner : String) (o : Outcome) (isProtected : Bool) : Run EffectReceipt :=
  if isProtected = true then finishProtected sv c owner o
  else if c.identity.operation = "run:script" ∧ c.sourceScript = true then
    finishSourceScript sv c owner o
  else if c.identity.operation = "call:grpc" then
    Procedure.transaction (finishGrpc sv c.identity owner c.lease o)
  else finishWithChild sv c owner o

/-- What `_store_effect_outcome` makes of the errors of a completion. -/
def storeError (e : OwaError) : OwaError :=
  if e.kind.isWorkflowExecution then
    c.recoveryRequired "workflow action outcome could not be reconciled"
  else e

/-- `_store_effect_outcome`. -/
def storeEffectOutcome (owner : String) (o : Outcome) : Run EffectReceipt :=
  tryCatch
    (do
      let isProtected ← orRaiseError c.protectedBusiness
      finishByProfile sv c owner o isProtected)
    fun e => throw (storeError c e)

/-- `_checkpoint_effect_completion`: a late result of a drained host stays out. -/
def checkpoint : Run Unit := raiseIf (c.interrupted = true) (.plain .cancelledError "")

def completeAction (owner : String) (result : Json) : Run Json := do
  checkpoint c
  let receipt ← storeEffectOutcome sv c owner (resultOutcome c result)
  settle c c.identity receipt

/-- The action failed with a known error: it is stored and raised again. -/
def faultAction (owner : String) (e : ActionError) : Run Json := do
  raiseIf (c.nativeMemory = true ∧ c.memoryDispatched = true)
    ⟨.effectRecoveryRequired,
      "native memory write requires evidence reconciliation or explicit resolution",
      [("stage", .str "memory"), ("reason", .str "recovery_required"),
        ("instance", .str c.identity.taskReference)]⟩
  checkpoint c
  let receipt ← storeEffectOutcome sv c owner (faultOutcome c e)
  notify c c.identity receipt
  throw e.error

/-- The error that stands for an exception outside the contract. -/
def taskFailed : ActionError :=
  ⟨⟨.workflowExecutionError, "task " ++ c.taskName ++ " failed", [("task", .str c.taskName)]⟩,
    "workflow_execution_error", 500⟩

/-- The `except` clauses around the action. -/
def failAction (owner : String) : DispatchFailure → Run Json
  | .cancelled true => throw (c.recoveryRequired
      "workflow action exceeded a deadline with an unresolved execution intent")
  | .cancelled false => throw (.plain .cancelledError "")
  | .uncertain e => throw ⟨.effectRecoveryRequired, e.message, e.details⟩
  | .interrupted e => throw e
  | .failed e => faultAction sv c owner e
  | .unexpected => faultAction sv c owner (taskFailed c)

/-- Start the action and store its outcome for the owner of the intent. -/
def runAction (owner : String) : Run Json := do
  Procedure.transaction (write (startAction sv c))
  match c.outcome with
  | .ok result => completeAction sv c owner result
  | .error failure => failAction sv c owner failure

/-- Answer a recovered outcome, or run the action for the owner of the intent. -/
def answerOrRun (owner : String) (known : Option Json) : Run Json :=
  match known with
  | some result => pure result
  | none => runAction sv c owner

/-- The pending intent: the action runs only if the intent is the attempt's own or,
for native memory, adopted. -/
def runPending (receipt : EffectReceipt) (wasAdmitted : Bool) : Run Json := do
  notifyAudited c
  if receipt.owner ≠ c.owner then do
    let known ← resolveForeign c wasAdmitted
    answerOrRun sv c receipt.owner known
  else runAction sv c c.owner

/-- What follows from the answer of the journal. -/
def afterReceipt (receipt : EffectReceipt) (wasAdmitted : Bool) : Run Json :=
  if receipt.status ≠ .pending then settle c c.identity receipt
  else runPending sv c receipt wasAdmitted

/-- The attempt that may run the action. -/
def runFresh : Run Json := do
  authorizeCall c
  let pair ← admitOrBegin sv c
  set (some pair.1)
  afterReceipt sv c pair.1 pair.2

def runJournaled : Run Json := do
  admitOpenapi c
  admitA2a sv c
  if c.reconcileExpired = true then reconcile sv c else runFresh sv c

/-- `_run_effect_scoped`. -/
def runEffectScoped : Run Json :=
  if c.journaled = false then runUnjournaled sv c else runJournaled sv c

end RunEffect
