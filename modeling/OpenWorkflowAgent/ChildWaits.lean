/-
# Waiting for a child

`child_waits.py` and the `ChildInvocationDependency` of `effects.py`: a parent that
awaits a child gives its execution back.  The admission is an immutable receipt
(`policy:child-await:v1`) and a row of `child_workflow_waits`; the wake is a second
receipt (`policy:child-wake:v1`) that records why the parent goes on: the child is
terminal, with a dependency on its terminal record, or the deadline has passed.

Every read of a wait checks the row, both receipts, the child's binding and the
budget again (`registration`).  A dependency is verified by computing it again: the
digest of the terminal record and its input, and the provenance of the child, which
`verify_control` walks up to the root.
-/
import OpenWorkflowAgent.Timers
import OpenWorkflowAgent.Children

open Transaction

/-! ## Suspensions and rows -/

/-- `ChildSuspension`; its constructor refuses any other value. -/
structure ChildSuspension where
  identity : EffectIdentity
  childId : String
  requestDigest : String
  deadlineAt : Option ℚ
  runs : identity.operation = "run:workflow"
  named : isUuidText childId = true ∧ childId ≠ identity.invocationId ∧
    isSha256Hex requestDigest = true
  future : ∀ d ∈ deadlineAt, 0 < d
  deriving DecidableEq

namespace ChildSuspension

/-- Build a suspension, or raise what the constructor raises. -/
def make (identity : EffectIdentity) (childId requestDigest : String) (deadlineAt : Option ℚ) :
    Except OwaError ChildSuspension :=
  if h : identity.operation = "run:workflow" ∧ (isUuidText childId = true ∧
      childId ≠ identity.invocationId ∧ isSha256Hex requestDigest = true) ∧
      ∀ d ∈ deadlineAt, 0 < d then
    .ok ⟨identity, childId, requestDigest, deadlineAt, h.1, h.2.1, h.2.2⟩
  else .error (.plain .workflowExecutionError "child suspension evidence is inconsistent")

/-- `as_value`. -/
def value (s : ChildSuspension) : Json :=
  .obj [("profile", .str "owa/child-suspension/v1"), ("identity", s.identity.value),
    ("child_id", .str s.childId), ("request_digest", .str s.requestDigest),
    ("deadline_at", .ofTime s.deadlineAt)]

end ChildSuspension

/-- The payload of a wait: the suspension and the source of the workflow. -/
structure WaitPayload where
  suspension : ChildSuspension
  source : List (String × Json)
  deriving DecidableEq

def WaitPayload.value (p : WaitPayload) : Json :=
  .obj [("suspension", p.suspension.value), ("source", .obj p.source)]

inductive WaitState where
  | pending
  | woken
  | consumed
  deriving DecidableEq, Repr

/-- A row of `child_workflow_waits`, without its key. -/
structure WaitRow where
  invocationId : String
  fingerprint : String
  childId : String
  engine : String
  deadlineAt : Option ℚ
  payload : WaitPayload
  digest : String
  state : WaitState
  deriving DecidableEq

/-- `ChildWaitRegistration`. -/
structure ChildWaitRegistration where
  identity : EffectIdentity
  suspension : ChildSuspension
  receipt : EffectReceipt
  workflowSource : Json
  deriving DecidableEq

/-- Why a parent goes on. -/
inductive WaitReason where
  | childTerminal
  | deadline
  deriving DecidableEq, Repr

def WaitReason.text : WaitReason → String
  | .childTerminal => "child_terminal"
  | .deadline => "deadline"

def WaitReason.ofText (text : String) : Option WaitReason :=
  if text = "child_terminal" then some .childTerminal
  else if text = "deadline" then some .deadline
  else none

@[simp] theorem WaitReason.ofText_text (r : WaitReason) : ofText r.text = some r := by
  cases r <;> decide

/-- The tables of children, the receipts and the waits. -/
structure WaitStore where
  children : ChildStore
  effects : Table String EffectRow
  effectInvocations : Table String EffectIndexRow
  waits : Table String WaitRow

/-- What a deployment brings: its children and its journal share the keys. -/
structure WaitServices where
  children : ChildServices
  journal : JournalServices
  same_key : journal.key = children.key

/-! ## Dependencies on terminal children -/

/-- A persisted payload, as its text decodes. -/
def Snapshot.value (s : Snapshot) : Json :=
  let i := s.record.identity
  let text (o : Option String) : Json := o.elim .null .str
  .obj [("invocation_id", .str i.invocationId), ("engine", .str i.engine),
    ("engine_execution_reference", .str i.engineExecutionReference), ("user_id", text i.userId),
    ("session_id", .str i.sessionId), ("workflow_name", .str i.workflowName),
    ("workflow_version", .str i.workflowVersion),
    ("workflow_fingerprint", .str i.workflowFingerprint), ("status", .str s.record.status.text),
    ("output", s.record.output), ("error", s.record.error),
    ("parent_invocation_id", text i.parentInvocationId),
    ("parent_task_reference", text i.parentTaskReference),
    ("owner_principal", text i.ownerPrincipal), ("_revision", .str s.revision)]

namespace ChildInvocationDependency

open Children

variable (sv : ChildServices)

/-- The terminal payload and the input of an invocation. -/
def outcome (childId : String) (s : ChildStore) : Except OwaError (Snapshot × Json) := do
  let found ← (Invocations.getInvocation childId).answer s.runtime
  let child ← orRaise found (refuse "child invocation outcome is unavailable")
  raiseIf (child.record.status.terminal = false) (refuse "child invocation outcome is unavailable")
  let payload ← orRaise child.persistedPayload (refuse "child invocation outcome is unavailable")
  let input ← readInput child.record.identity s.runtime
  return (payload, input)

/-- `_value`: the outcome as it is digested. -/
def outcomeValue (o : Snapshot × Json) : Json := .obj [("record", o.1.value), ("input", o.2)]

/-- The value that ties a dependency to a binding row. -/
def bindingValue (key digest : String) : Json :=
  .obj [("binding_key", .str key), ("binding_digest", .str digest)]

/-- The value that ties a dependency to the policy of a root. -/
def budgetValue (rootId digest : String) : Json :=
  .obj [("root_id", .str rootId), ("policy_digest", .str digest)]

/-- The provenance of a child that has a binding: its key and the two digests. -/
def provenanceOf (childId : String) (s : ChildStore) (row : BindingRow) :
    Except OwaError (String × String × String) := do
  let binding ← bindingOf sv (some row)
  let found ← (Invocations.getInvocation binding.parentId).answer s.runtime
  let parent ← orRaise found (.plain .valueError "child provenance parent is absent")
  let child ← (verifyControl sv binding parent.record.identity).answer s
  raiseIf (child.record.identity.invocationId ≠ childId)
    (.plain .valueError "child provenance refers to another invocation")
  let budget ← orRaise (s.budgets.lookup binding.rootId)
    (.plain .valueError "child provenance root policy is absent")
  let bindingDigest ← effectRequestDigest sv.hash "owa/child-binding-dependency/v1"
    (bindingValue binding.key row.digest)
  let budgetDigest ← effectRequestDigest sv.hash "owa/child-budget-dependency/v1"
    (budgetValue binding.rootId budget.policyDigest)
  return (binding.key, bindingDigest, budgetDigest)

/-- `_provenance`. -/
def provenance (childId : String) (s : ChildStore) :
    Except OwaError (Option (String × String × String)) :=
  match rowOfChild childId s with
  | none => .ok none
  | some row => match provenanceOf sv childId s row with
    | .ok p => .ok (some p)
    | .error _ => .error (refuse "child invocation provenance is inconsistent")

/-- Build a dependency, or raise what `__post_init__` raises. -/
def make (invocationId recordDigest : String) (bindingDigest budgetDigest : Option String) :
    Except OwaError ChildInvocationDependency :=
  if h : (invocationId ≠ "" ∧ isSha256Hex recordDigest = true) ∧
      (bindingDigest.isSome = budgetDigest.isSome ∧ bindingDigest.all isSha256Hex = true ∧
        budgetDigest.all isSha256Hex = true) then
    .ok ⟨invocationId, recordDigest, bindingDigest, budgetDigest, h.1, h.2⟩
  else .error (.plain .valueError "child invocation dependency is invalid")

/-- `capture`. -/
def capture (childId : String) (s : ChildStore) : Except OwaError ChildInvocationDependency := do
  let o ← outcome childId s
  let p ← provenance sv childId s
  let digest ← effectRequestDigest sv.hash "owa/child-invocation/v1" (outcomeValue o)
  make childId digest (p.map fun p => p.2.1) (p.map fun p => p.2.2)

/-- The recorded provenance is the one that is found now. -/
def verifyProvenance (d : ChildInvocationDependency) (identity : EffectIdentity)
    (s : ChildStore) : Except OwaError Unit :=
  match d.bindingDigest, d.budgetDigest with
  | some bindingDigest, budgetDigest => do
      let p ← provenance sv d.invocationId s
      raiseIf (p.map (fun p => (p.1, p.2.1, some p.2.2)) ≠
          some (sv.key identity, bindingDigest, budgetDigest))
        (refuse "child invocation provenance is inconsistent")
  | none, _ => .ok ()

/-- `verify`; `identity` is the one of the `run:workflow` action. -/
def verify (d : ChildInvocationDependency) (identity : EffectIdentity) (requestDigest : String)
    (s : ChildStore) : Except OwaError Unit := do
  let o ← outcome d.invocationId s
  let digest ← effectRequestDigest sv.hash "owa/child-invocation/v1" (outcomeValue o)
  let request ← effectRequestDigest sv.hash "run:workflow"
    (childRequest o.1.record.identity.workflowFingerprint o.2)
  raiseIf (digest ≠ d.recordDigest ∨
      o.1.record.identity.parentInvocationId ≠ some identity.invocationId ∨
      request ≠ requestDigest) (refuse "child invocation dependency is inconsistent")
  verifyProvenance sv d identity s

end ChildInvocationDependency

namespace ChildWaits

open Children

variable (sv : WaitServices)

/-- The operation of an admission receipt, `_ARM`. -/
def awaitOperation : String := "policy:child-await:v1"

/-- The operation of a wake receipt, `_WAKE`. -/
def childWakeOperation : String := "policy:child-wake:v1"

/-- `replace(identity, operation=…)`. -/
def withOperation (identity : EffectIdentity) (operation : String) (h : operation ≠ "") :
    EffectIdentity :=
  identity.withOperation operation h

/-- The identity of the admission of a run. -/
def awaitIdentity (identity : EffectIdentity) : EffectIdentity :=
  withOperation identity awaitOperation (by decide)

def wakeIdentity (identity : EffectIdentity) : EffectIdentity :=
  withOperation identity childWakeOperation (by decide)

/-! ## Reading -/

/-- The checks of `_receipt` on a row that was found. -/
def decodeReceipt (identity : EffectIdentity) (index : Option EffectIndexRow) (row : EffectRow) :
    Except OwaError EffectReceipt := do
  let receipt ← EffectReceipt.make row.payload
  raiseIf (receipt.owner ≠ row.owner ∨ receipt.status ≠ row.status ∨
      index ≠ some identity.indexRow)
    (.plain .valueError "invalid policy receipt index")
  return receipt

/-- The `except` clauses of this module. -/
def evidenceError (message : String) (e : OwaError) : OwaError :=
  if e.kind = .valueError then refuse message else e

/-- `_receipt`. -/
def readReceipt (identity : EffectIdentity) (s : WaitStore) :
    Except OwaError (Option EffectReceipt) :=
  match s.effects.lookup (sv.children.key identity) with
  | none => .ok none
  | some row =>
    match decodeReceipt identity (s.effectInvocations.lookup (sv.children.key identity)) row with
    | .ok receipt => .ok (some receipt)
    | .error e => .error (evidenceError "child wait receipt is inconsistent" e)

/-- The parties of a wait agree with the binding. -/
def ChildAgrees (suspension : ChildSuspension) (engine : String) (binding : ChildBinding)
    (parent child : InvocationIdentity) : Prop :=
  binding.parentId = parent.invocationId ∧ binding.childId = child.invocationId ∧
    parent.workflowFingerprint = suspension.identity.workflowFingerprint ∧
    parent.engine = engine ∧ child.engine = parent.engine ∧
    child.parentInvocationId = some parent.invocationId ∧
    child.parentTaskReference = some binding.parentTaskReference ∧
    child.ownerPrincipal = parent.ownerPrincipal ∧ child.userId = parent.userId ∧
    sourceAgrees binding.workflowSource child = true ∧
    binding.requestDigest = suspension.requestDigest

instance (suspension : ChildSuspension) (engine : String) (binding : ChildBinding)
    (parent child : InvocationIdentity) :
    Decidable (ChildAgrees suspension engine binding parent child) :=
  inferInstanceAs (Decidable (_ ∧ _))

/-- `_verify_child`. -/
def verifyChild (suspension : ChildSuspension) (engine : String) (s : ChildStore) :
    Except OwaError Unit := do
  let message := "child wait binding, identity or budget is inconsistent"
  let binding ← bindingOf sv.children
    (s.bindings.lookup (sv.children.key suspension.identity))
  let budget ← (soundBudget sv.children binding.rootId message).answer s
  let parent ← (Invocations.getInvocation suspension.identity.invocationId).answer s.runtime
  let parent ← orRaise parent (refuse message)
  let child ← (Invocations.getInvocation suspension.childId).answer s.runtime
  let child ← orRaise child (refuse message)
  let input ← readInput child.record.identity s.runtime
  let request ← effectRequestDigest sv.children.hash "run:workflow"
    (childRequest child.record.identity.workflowFingerprint input)
  raiseIf (budget.used < 1 ∨ budget.used ≠ bindingCount binding.rootId s ∨ binding.depth < 1 ∨
      budget.maxDepth < binding.depth ∨
      ¬ ChildAgrees suspension engine binding parent.record.identity child.record.identity ∨
      request ≠ binding.requestDigest) (refuse message)

def RowAgrees (key : String) (row : WaitRow) (digest : String) : Prop :=
  let suspension := row.payload.suspension
  sv.children.key suspension.identity = key ∧
    row.invocationId = suspension.identity.invocationId ∧
    row.fingerprint = suspension.identity.workflowFingerprint ∧
    row.childId = suspension.childId ∧ row.deadlineAt = suspension.deadlineAt ∧
    row.digest = digest

instance (key : String) (row : WaitRow) (digest : String) :
    Decidable (RowAgrees sv key row digest) :=
  inferInstanceAs (Decidable (_ ∧ _))

/-- The admission receipt of a row. -/
def ReceiptAgrees (row : WaitRow) (receipt : EffectReceipt) : Prop :=
  receipt.status = .completed ∧ receipt.owner = "child-wait" ∧
    receipt.output.canonical = row.payload.value.canonical ∧
    receipt.requestDigest = row.digest ∧ receipt.childInvocation = none

instance (row : WaitRow) (receipt : EffectReceipt) : Decidable (ReceiptAgrees row receipt) :=
  inferInstanceAs (Decidable (_ ∧ _))

/-- The registration of a row, after every check of `_registration`. -/
def decodeWait (s : WaitStore) (key : String) (row : WaitRow) :
    Except OwaError ChildWaitRegistration := do
  let suspension := row.payload.suspension
  let digest ← effectRequestDigest sv.children.hash awaitOperation row.payload.value
  raiseIf (¬ RowAgrees sv key row digest) (.plain .valueError "invalid admission columns")
  let found ← readReceipt sv (awaitIdentity suspension.identity) s
  let receipt ← orRaise found (.plain .valueError "invalid admission receipt")
  raiseIf (¬ ReceiptAgrees row receipt) (.plain .valueError "invalid admission receipt")
  let wake ← readReceipt sv (wakeIdentity suspension.identity) s
  raiseIf ((row.state ≠ .pending) ≠ (wake ≠ none))
    (.plain .valueError "child wait state differs from its immutable wake")
  verifyChild sv suspension row.engine s.children
  let _ ← effectRequestDigest sv.children.hash "owa/child-wait-json/v1" (.obj row.payload.source)
  return ⟨suspension.identity, suspension, receipt, (Json.obj row.payload.source).canonical⟩

/-- `_registration`. -/
def registrationForKey (key : String) (s : WaitStore) :
    Except OwaError (Option ChildWaitRegistration) :=
  match s.waits.lookup key with
  | none => .ok none
  | some row => match decodeWait sv s key row with
    | .ok registration => .ok (some registration)
    | .error e => .error (evidenceError "child wait admission evidence is inconsistent" e)

/-- `registration`. -/
def registration (identity : EffectIdentity) :
    Transaction OwaError WaitStore (Option ChildWaitRegistration) := do
  raiseIf (identity.operation ≠ "run:workflow")
    (refuse "child wait requires a workflow run identity")
  let answer ← read (registrationForKey sv (sv.children.key identity))
  orRaiseError answer

/-! ## Wakes -/

def wakeOutput (key : String) (suspension : ChildSuspension) (reason : WaitReason) : Json :=
  .obj [("child_key", .str key), ("child_id", .str suspension.childId),
    ("request_digest", .str suspension.requestDigest),
    ("deadline_at", .ofTime suspension.deadlineAt), ("reason", .str reason.text)]

def wakeRequest (admissionDigest : String) (wake : Json) : Json :=
  .obj [("admission_digest", .str admissionDigest), ("wake", wake)]

def readWake (key : String) (suspension : ChildSuspension) (value : Json) : Option WaitReason := do
  if value.hasFields ["child_key", "child_id", "request_digest", "deadline_at", "reason"] ∧
      value.field? "child_key" = some (.str key) ∧
      value.field? "child_id" = some (.str suspension.childId) ∧
      value.field? "request_digest" = some (.str suspension.requestDigest) ∧
      Arming.readDeadline value = some suspension.deadlineAt then
    (Arming.readText "reason" value).bind WaitReason.ofText
  else none

theorem readWake_wakeOutput (key : String) (suspension : ChildSuspension) (reason : WaitReason) :
    readWake key suspension (wakeOutput key suspension reason) = some reason := by
  cases h : suspension.deadlineAt <;>
    simp [readWake, wakeOutput, Json.hasFields, Json.field?, Arming.readDeadline, Arming.readText,
      Json.ofTime, Json.number?, h]

/-- The evidence of the recorded reason. -/
def verifyReason (known : ChildWaitRegistration) (receipt : EffectReceipt) (s : ChildStore)
    (reason : WaitReason) : Except OwaError Unit :=
  match reason with
  | .childTerminal => do
      let dependency ← orRaise receipt.childInvocation
        (refuse "child wake outcome dependency is absent")
      raiseIf (dependency.invocationId ≠ known.suspension.childId)
        (refuse "child wake outcome dependency is absent")
      dependency.verify sv.children known.identity known.suspension.requestDigest s
  | .deadline =>
    raiseIf (known.suspension.deadlineAt = none ∨ receipt.childInvocation ≠ none)
      (refuse "child wake deadline evidence is inconsistent")

/-- `_wake_value`: the recorded reason; the other fields of the value are those of the wait. -/
def wakeValue (known : ChildWaitRegistration) (receipt : EffectReceipt) (s : ChildStore) :
    Except OwaError WaitReason := do
  let reason ← orRaise (readWake (sv.children.key known.identity) known.suspension receipt.output)
    (refuse "child wake evidence is inconsistent")
  let digest ← effectRequestDigest sv.children.hash childWakeOperation
    (wakeRequest known.receipt.requestDigest receipt.output)
  raiseIf (receipt.status ≠ .completed ∨ receipt.owner ≠ "child-wait" ∨
      receipt.requestDigest ≠ digest) (refuse "child wake evidence is inconsistent")
  verifyReason sv known receipt s reason
  return reason

/-! ## Operations -/

/-- Run an insert into the tables of the journal. -/
def onJournal {α : Type} (t : Transaction OwaError JournalStore α) :
    Transaction OwaError WaitStore α :=
  t.zoom (fun s => ⟨s.children.runtime, s.effects, s.effectInvocations, ∅, []⟩)
    (fun x s => { s with
      effects := x.effects
      effectInvocations := x.effectInvocations })

/-- `_authority` and the guarded transaction of the parent. -/
def ownedBy {α : Type} (identity : EffectIdentity) (parent : ExecutionHandle)
    (body : Transaction OwaError WaitStore α) : Transaction OwaError WaitStore α := do
  let p := parent.record.identity
  raiseIf (identity.operation ≠ "run:workflow" ∨ identity.invocationId ≠ p.invocationId ∨
      identity.workflowFingerprint ≠ p.workflowFingerprint ∨
      ¬ parent.executionLease.any (fun l => l.engine = p.engine))
    (.plain .invocationStateConflict "child wait requires current parent authority")
  Ownership.ownedWriteTransaction (fun s => s.children.runtime.owners) parent.executionLease
    p.invocationId p.workflowFingerprint body

/-- A completed receipt of the owner `child-wait`. -/
def receiptFields (digest : String) (output : Json)
    (childInvocation : Option ChildInvocationDependency) : ReceiptFields :=
  ⟨digest, "child-wait", .completed, output, none, none, none, childInvocation, none⟩

/-- The row that `arm` inserts. -/
def newRow (parent : InvocationIdentity) (payload : WaitPayload) (digest : String) : WaitRow where
  invocationId := parent.invocationId
  fingerprint := parent.workflowFingerprint
  childId := payload.suspension.childId
  engine := parent.engine
  deadlineAt := payload.suspension.deadlineAt
  payload := payload
  digest := digest
  state := .pending

/-- Record a new admission: its row and its receipt. -/
def armNew (identity : EffectIdentity) (parent : ExecutionHandle) (payload : WaitPayload)
    (digest : String) : Transaction OwaError WaitStore ChildWaitRegistration := do
  let found ← read (readReceipt sv (awaitIdentity identity))
  let found ← orRaiseError found
  raiseIf (found ≠ none) (refuse "child wait row is absent for its admission receipt")
  write fun s => { s with
    waits := s.waits.put (sv.children.key identity) (newRow parent.record.identity payload digest) }
  let receipt ← orRaiseError (EffectReceipt.make (receiptFields digest payload.value none))
  onJournal (EffectJournal.insertCompletedReceipt sv.journal (awaitIdentity identity) receipt)
  let recorded ← registration sv identity
  orRaise recorded (refuse "child wait admission was not recorded")

/-- A repeated admission answers the saved one if it is the same. -/
def armFound (identity : EffectIdentity) (parent : ExecutionHandle) (payload : WaitPayload)
    (digest : String) (existing : Option ChildWaitRegistration) :
    Transaction OwaError WaitStore ChildWaitRegistration :=
  match existing with
  | some known => do
      raiseIf (known.receipt.requestDigest ≠ digest)
        (refuse "child wait original request or deadline changed")
      return known
  | none => armNew sv identity parent payload digest

/-- `arm`.  The digest of the binding is read before the transaction; bindings never change. -/
def arm (identity : EffectIdentity) (parent : ExecutionHandle) (childId : String)
    (source : List (String × Json)) (deadlineAt : Option ℚ) :
    Transaction OwaError WaitStore ChildWaitRegistration :=
  ownedBy identity parent do
    let row ← read fun s => s.children.bindings.lookup (sv.children.key identity)
    let row ← orRaise row (refuse "child wait requires an admitted child")
    let suspension ← orRaiseError
      (ChildSuspension.make identity childId row.binding.requestDigest deadlineAt)
    let digest ← orRaiseError
      (effectRequestDigest sv.children.hash awaitOperation (WaitPayload.value ⟨suspension, source⟩))
    let verified ← read fun s => verifyChild sv suspension parent.record.identity.engine s.children
    orRaiseError verified
    let existing ← registration sv identity
    armFound sv identity parent ⟨suspension, source⟩ digest existing

/-- `UPDATE … SET state='woken' WHERE run_key=? AND state='pending'`. -/
def wakeRow (key : String) (s : WaitStore) : WaitStore :=
  { s with
    waits := s.waits.updateWhere key (fun row => row.state = .pending)
      (fun row => { row with state := .woken }) }

/-- The dependency of a wake: on the child if it is terminal. -/
def dependencyOf (reason : WaitReason) (childId : String) (s : ChildStore) :
    Except OwaError (Option ChildInvocationDependency) :=
  match reason with
  | .childTerminal => do
      let dependency ← ChildInvocationDependency.capture sv.children childId s
      return some dependency
  | .deadline => .ok none

def recordWake (known : ChildWaitRegistration) (reason : WaitReason) :
    Transaction OwaError WaitStore (Option WaitReason) := do
  let key := sv.children.key known.identity
  let output := wakeOutput key known.suspension reason
  let digest ← orRaiseError (effectRequestDigest sv.children.hash childWakeOperation
    (wakeRequest known.receipt.requestDigest output))
  let captured ← read fun s => dependencyOf sv reason known.suspension.childId s.children
  let dependency ← orRaiseError captured
  let receipt ← orRaiseError (EffectReceipt.make (receiptFields digest output dependency))
  onJournal (EffectJournal.insertCompletedReceipt sv.journal (wakeIdentity known.identity) receipt)
  write (wakeRow key)
  let answer ← read fun s => wakeValue sv known receipt s.children
  let reason ← orRaiseError answer
  return some reason

def dueReason (known : ChildWaitRegistration) (child : InvocationRecord) (now : ℚ) :
    Option WaitReason :=
  if child.status.terminal then some .childTerminal
  else if known.suspension.deadlineAt.any (· ≤ now) then some .deadline
  else none

/-- A wake that is due is recorded; nothing happens otherwise. -/
def wakeDue (known : ChildWaitRegistration) (due : Option WaitReason) :
    Transaction OwaError WaitStore (Option WaitReason) :=
  match due with
  | some reason => recordWake sv known reason
  | none => return none

/-- The first recorded wake is the answer. -/
def wakeFound (known : ChildWaitRegistration) (now : ℚ) (existing : Option EffectReceipt) :
    Transaction OwaError WaitStore (Option WaitReason) :=
  match existing with
  | some receipt => do
      let answer ← read fun s => wakeValue sv known receipt s.children
      let reason ← orRaiseError answer
      return some reason
  | none => do
      let found ← read fun s =>
        (Invocations.getInvocation known.suspension.childId).answer s.children.runtime
      let found ← orRaiseError found
      let child ← orRaise found (refuse "awaited child is absent")
      wakeDue sv known (dueReason known child.record now)

/-- The stored admission is the one that the caller has. -/
def sameAdmission (wait known : ChildWaitRegistration) : Bool :=
  known.receipt.canonical = wait.receipt.canonical ∧ known.workflowSource = wait.workflowSource

/-- `wake`: the recorded reason, or nothing while the child runs before the deadline. -/
def wake (wait : ChildWaitRegistration) (parent : ExecutionHandle) (now : ℚ) :
    Transaction OwaError WaitStore (Option WaitReason) := do
  raiseIf (now ≤ 0) (refuse "child wait wake clock is invalid")
  ownedBy wait.identity parent do
    let found ← registration sv wait.identity
    let known ← orRaise found (refuse "child wait admission changed before wake")
    raiseIf (sameAdmission wait known = false)
      (refuse "child wait admission changed before wake")
    let existing ← read (readReceipt sv (wakeIdentity wait.identity))
    let existing ← orRaiseError existing
    wakeFound sv known now existing

/-- `consume`. -/
def consume (wait : ChildWaitRegistration) (parent : ExecutionHandle) :
    Transaction OwaError WaitStore Unit :=
  ownedBy wait.identity parent do
    let found ← registration sv wait.identity
    let receipt ← read (readReceipt sv (wakeIdentity wait.identity))
    let receipt ← orRaiseError receipt
    let known ← orRaise found (refuse "child wait cannot be consumed without a wake")
    raiseIf (sameAdmission wait known = false)
      (refuse "child wait cannot be consumed without a wake")
    let receipt ← orRaise receipt (refuse "child wait cannot be consumed without a wake")
    let answer ← read fun s => wakeValue sv known receipt s.children
    let _ ← orRaiseError answer
    write fun s => { s with
      waits := s.waits.updateWhere (sv.children.key wait.identity) (fun _ => true)
        (fun row => { row with state := .consumed }) }

end ChildWaits
