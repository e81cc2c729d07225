/-
# Child workflow reservations

`children.py`: a `run: workflow` action reserves its child before it starts.  One
transaction under the parent's lease inserts the binding of the effect identity, the
child's invocation with its input, and counts the child against the budget of the
root of the tree.  The budget row keeps the limits that were configured when the
root reserved its first child.

`reserve` answers the same child for a repeated request; `verifyControl` checks a
binding against the budget, the parent and the child, and walks the chain of
bindings up to the root.

The digests of rows are parameters.  A workflow plan carries the name and the
version that its own source states.
-/
import OpenWorkflowAgent.EffectJournal

open Transaction

/-! ## Rows -/

/-- `ChildBinding`. -/
structure ChildBinding where
  key : String
  rootId : String
  parentId : String
  childId : String
  depth : ℕ
  requestDigest : String
  workflowSource : Json
  parentTaskReference : String
  deriving DecidableEq

/-- A row of `child_workflow_bindings`: the binding and its digest. -/
structure BindingRow where
  binding : ChildBinding
  digest : String
  deriving DecidableEq

/-- A row of `child_workflow_budgets`. -/
structure BudgetRow where
  fingerprint : String
  maxDepth : ℕ
  maxChildren : ℕ
  used : ℕ
  policyDigest : String
  deriving DecidableEq

/-- The runtime tables and the two tables of children. -/
structure ChildStore where
  runtime : RuntimeStore
  budgets : Table String BudgetRow
  bindings : Table String BindingRow

/-- `ChildWorkflowConfig`, as far as reservations read it. -/
structure ChildPolicy where
  maxDepth : ℕ
  maxChildren : ℕ
  depth_range : 1 ≤ maxDepth ∧ maxDepth ≤ 64
  children_range : 1 ≤ maxChildren ∧ maxChildren ≤ 100000

/-- The fields of a `WorkflowPlan` that a reservation reads. -/
structure ChildPlan where
  name : String
  version : String
  fingerprint : String
  source : Json
  stated : ∃ document fields, source.field? "document" = some document ∧
    document = .obj fields ∧ document.field? "name" = some (.str name) ∧
    document.field? "version" = some (.str version)

/-- The identifiers that a reservation draws: each is a new `uuid4`. -/
structure DrawnIds where
  invocationId : String
  engineExecutionReference : String
  sessionId : String
  revision : String

/-- What a deployment brings to the reservations. -/
structure ChildServices where
  /-- `EffectIdentity.key`. -/
  key : EffectIdentity → String
  /-- The hash of `effect_request_digest`. -/
  hash : String → Json → String
  /-- `_digest` of the columns of a binding. -/
  bindingDigest : ChildBinding → String
  /-- `_digest` of the root, its fingerprint and the limits. -/
  policyDigest : String → String → ℕ → ℕ → String
  /-- `authority_participant`; it may raise. -/
  authority : Option (ChildStore → ExecutionHandle → ExecutionHandle → ExecutionLease →
    Except OwaError Unit)

namespace Children

variable (sv : ChildServices)

/-- The error class that the operations raise themselves. -/
def refuse (message : String) : OwaError := .plain .workflowExecutionError message

/-! ## Reading -/

def onRuntime {α : Type} (t : Transaction OwaError RuntimeStore α) :
    Transaction OwaError ChildStore α :=
  t.zoom ChildStore.runtime (fun x s => { s with runtime := x })

/-- `_binding`: the binding of a row, after its checks. -/
def bindingOf (row : Option BindingRow) : Except OwaError ChildBinding := do
  let row ← orRaise row (refuse "child workflow binding is absent")
  raiseIf (sv.bindingDigest row.binding ≠ row.digest)
    (refuse "child workflow binding is inconsistent")
  raiseIf (row.binding.key = "" ∨ row.binding.rootId = "" ∨ row.binding.parentId = "" ∨
      row.binding.childId = "" ∨ row.binding.depth < 1 ∨ row.binding.parentTaskReference = "")
    (refuse "child workflow binding identity is invalid")
  return row.binding

/-- `SELECT … WHERE child_id = ?`. -/
def rowOfChild (childId : String) (s : ChildStore) : Option BindingRow :=
  (s.bindings.rows.find? fun r => r.2.binding.childId = childId).map Prod.snd

/-- The found binding belongs to the parent that asks. -/
def ofParent (identity : EffectIdentity) (row : Option BindingRow) :
    Except OwaError (Option ChildBinding) :=
  match row with
  | none => return none
  | some row => do
      let binding ← bindingOf sv (some row)
      raiseIf (binding.parentId ≠ identity.invocationId)
        (refuse "child workflow binding belongs to another parent")
      return some binding

/-- `get`. -/
def get (identity : EffectIdentity) : Transaction OwaError ChildStore (Option ChildBinding) := do
  let row ← read fun s => s.bindings.lookup (sv.key identity)
  orRaiseError (ofParent sv identity row)

/-- `COUNT(*) … WHERE root_id = ?`. -/
def bindingCount (rootId : String) (s : ChildStore) : ℕ :=
  (s.bindings.selectRows fun _ row => row.binding.rootId = rootId).length

/-- `read_input` of an invocation. -/
def readInput (identity : InvocationIdentity) (s : RuntimeStore) : Except OwaError Json :=
  match s.inputs.lookup identity.invocationId with
  | none => .error (refuse "invocation input could not be recovered")
  | some row =>
    if row.fingerprint ≠ identity.workflowFingerprint then
      .error (.plain .workflowDefinitionChanged
        "persisted workflow input belongs to a different definition")
    else if row.payload.valid then .ok row.payload
    else .error (refuse "invocation input could not be recovered")

/-- The value whose digest identifies the request. -/
def childRequest (fingerprint : String) (input : Json) : Json :=
  .obj [("workflow_fingerprint", .str fingerprint), ("input", input)]

/-- The limits of a budget row are in range, and its digest is the one of its limits. -/
def BudgetSound (rootId : String) (budget : BudgetRow) : Prop :=
  (1 ≤ budget.maxDepth ∧ budget.maxDepth ≤ 64) ∧
    (1 ≤ budget.maxChildren ∧ budget.maxChildren ≤ 100000) ∧ budget.used ≤ budget.maxChildren ∧
    budget.policyDigest =
      sv.policyDigest rootId budget.fingerprint budget.maxDepth budget.maxChildren

instance (rootId : String) (budget : BudgetRow) : Decidable (BudgetSound sv rootId budget) :=
  inferInstanceAs (Decidable (_ ∧ _))

def soundBudget (rootId message : String) : Transaction OwaError ChildStore BudgetRow := do
  let found ← read fun s => s.budgets.lookup rootId
  let root ← onRuntime (Invocations.getInvocation rootId)
  let budget ← orRaise found (refuse message)
  let root ← orRaise root (refuse message)
  raiseIf (root.record.identity.workflowFingerprint ≠ budget.fingerprint ∨
    ¬ BudgetSound sv rootId budget) (refuse message)
  return budget

/-! ## Verification -/

/-- `verify`: the child of a binding, for a request that is made again. -/
def verify (binding : ChildBinding) (parent : ExecutionHandle) (plan : ChildPlan) (input : Json) :
    Transaction OwaError ChildStore ExecutionHandle := do
  let budget ← soundBudget sv binding.rootId "child workflow budget or request is inconsistent"
  let count ← read (bindingCount binding.rootId)
  let request ← orRaiseError
    (effectRequestDigest sv.hash "run:workflow" (childRequest plan.fingerprint input))
  raiseIf (budget.used < 1 ∨ count ≠ budget.used ∨ binding.depth < 1 ∨
      budget.maxDepth < binding.depth ∨ binding.requestDigest ≠ request ∨
      binding.workflowSource ≠ plan.source)
    (refuse "child workflow budget or request is inconsistent")
  let found ← onRuntime (Invocations.getInvocation binding.childId)
  let child ← orRaise found (refuse "child workflow invocation binding is inconsistent")
  let saved ← read fun s => readInput child.record.identity s.runtime
  let saved ← orRaiseError saved
  let c := child.record.identity
  let p := parent.record.identity
  raiseIf (c.parentInvocationId ≠ some p.invocationId ∨
      c.parentTaskReference ≠ some binding.parentTaskReference ∨ c.engine ≠ p.engine ∨
      c.ownerPrincipal ≠ p.ownerPrincipal ∨ c.userId ≠ p.userId ∨
      c.workflowFingerprint ≠ plan.fingerprint ∨ c.workflowName ≠ plan.name ∨
      c.workflowVersion ≠ plan.version ∨ saved.canonical ≠ input.canonical)
    (refuse "child workflow invocation binding is inconsistent")
  return child

/-- The document of the saved source states the name and the version of the child. -/
def sourceAgrees (source : Json) (child : InvocationIdentity) : Bool :=
  match source.field? "document" with
  | some (.obj fields) =>
    (Json.obj fields).field? "name" = some (.str child.workflowName) ∧
      (Json.obj fields).field? "version" = some (.str child.workflowVersion)
  | _ => false

def ControlAgrees (binding : ChildBinding) (parent current child : InvocationIdentity) : Prop :=
  binding.parentId = parent.invocationId ∧ current.engine = parent.engine ∧
    current.workflowFingerprint = parent.workflowFingerprint ∧
    current.ownerPrincipal = parent.ownerPrincipal ∧ current.userId = parent.userId ∧
    current.parentInvocationId = parent.parentInvocationId ∧
    current.parentTaskReference = parent.parentTaskReference ∧
    child.parentInvocationId = some current.invocationId ∧
    child.parentTaskReference = some binding.parentTaskReference ∧
    child.engine = current.engine ∧ child.ownerPrincipal = current.ownerPrincipal ∧
    child.userId = current.userId ∧ child.sessionId ≠ current.sessionId

instance (binding : ChildBinding) (parent current child : InvocationIdentity) :
    Decidable (ControlAgrees binding parent current child) :=
  inferInstanceAs (Decidable (_ ∧ _))

/-- The loop of `verify_control`: from an ancestor at the depth `remaining` up to the root. -/
def walk (rootId : String) :
    ℕ → InvocationIdentity → Transaction OwaError ChildStore InvocationIdentity
  | 0, ancestor => return ancestor
  | remaining + 1, ancestor => do
      let row ← read (rowOfChild ancestor.invocationId)
      let binding ← orRaiseError (bindingOf sv row)
      raiseIf (binding.rootId ≠ rootId ∨ binding.depth ≠ remaining + 1 ∨
          ancestor.parentInvocationId ≠ some binding.parentId ∨
          ancestor.parentTaskReference ≠ some binding.parentTaskReference)
        (refuse "child control ancestry is inconsistent")
      let found ← onRuntime (Invocations.getInvocation binding.parentId)
      let next ← orRaise found (refuse "child control ancestor is absent")
      walk rootId remaining next.record.identity

/-- `verify_control`: the child of a binding, checked up to the root of its tree. -/
def verifyControl (binding : ChildBinding) (parent : InvocationIdentity) :
    Transaction OwaError ChildStore ExecutionHandle := do
  let row ← read fun s => s.bindings.lookup binding.key
  let saved ← orRaiseError (bindingOf sv row)
  raiseIf (saved ≠ binding) (refuse "child control binding changed")
  let message := "child control identity, input or budget is inconsistent"
  let budget ← soundBudget sv saved.rootId message
  let count ← read (bindingCount saved.rootId)
  let current ← onRuntime (Invocations.getInvocation parent.invocationId)
  let current ← orRaise current (refuse message)
  let child ← onRuntime (Invocations.getInvocation saved.childId)
  let child ← orRaise child (refuse message)
  let input ← read fun s => readInput child.record.identity s.runtime
  let input ← orRaiseError input
  let request ← orRaiseError (effectRequestDigest sv.hash "run:workflow"
    (childRequest child.record.identity.workflowFingerprint input))
  raiseIf (budget.used < 1 ∨ budget.used ≠ count ∨ saved.depth < 1 ∨
      budget.maxDepth < saved.depth ∨
      ¬ ControlAgrees saved parent current.record.identity child.record.identity ∨
      request ≠ saved.requestDigest) (refuse message)
  raiseIf (sourceAgrees saved.workflowSource child.record.identity = false)
    (refuse "child control source is inconsistent")
  let top ← walk sv saved.rootId (saved.depth - 1) current.record.identity
  raiseIf (top.invocationId ≠ saved.rootId ∨ top.parentInvocationId ≠ none)
    (refuse "child control root ancestry is inconsistent")
  return child

/-! ## Reservation -/

/-- The budget that a root gets with its first child. -/
def firstBudget (policy : ChildPolicy) (root : InvocationIdentity) : BudgetRow where
  fingerprint := root.workflowFingerprint
  maxDepth := policy.maxDepth
  maxChildren := policy.maxChildren
  used := 0
  policyDigest := sv.policyDigest root.invocationId root.workflowFingerprint policy.maxDepth
    policy.maxChildren

/-- The root and the depth of a new child of a parent; a root gets its budget row. -/
def place (policy : ChildPolicy) (parent : InvocationIdentity) :
    Transaction OwaError ChildStore (String × ℕ) :=
  match parent.parentInvocationId with
  | none => do
      write fun s => { s with
        budgets := s.budgets.insertNew parent.invocationId (firstBudget sv policy parent) }
      return (parent.invocationId, 1)
  | some grandparent => do
      let row ← read (rowOfChild parent.invocationId)
      let ancestor ← orRaiseError (bindingOf sv row)
      raiseIf (ancestor.parentId ≠ grandparent) (refuse "child workflow ancestry is inconsistent")
      return (ancestor.rootId, ancestor.depth + 1)

def childIdentity (parent : InvocationIdentity) (plan : ChildPlan) (reference : String)
    (ids : DrawnIds) : InvocationIdentity where
  invocationId := ids.invocationId
  engine := parent.engine
  engineExecutionReference := ids.engineExecutionReference
  userId := parent.userId
  sessionId := ids.sessionId
  workflowName := plan.name
  workflowVersion := plan.version
  workflowFingerprint := plan.fingerprint
  parentInvocationId := some parent.invocationId
  parentTaskReference := some reference
  ownerPrincipal := parent.ownerPrincipal

/-- Insert the binding, whose key and child are unique, and count it. -/
def recordBinding (binding : ChildBinding) : Transaction OwaError ChildStore Unit := do
  let taken ← read fun s => s.bindings.lookup binding.key
  let child ← read (rowOfChild binding.childId)
  raiseIf (taken ≠ none ∨ child ≠ none) (.plain .storageError "duplicate child binding")
  write fun s => { s with
    bindings := s.bindings.put binding.key ⟨binding, sv.bindingDigest binding⟩
    budgets := s.budgets.updateWhere binding.rootId (fun _ => true)
      (fun budget => { budget with used := budget.used + 1 }) }

/-- The participant of the deployment, if it has one. -/
def participate (child parent : ExecutionHandle) (lease : Option ExecutionLease) :
    Transaction OwaError ChildStore Unit := do
  let answer ← read fun s => match sv.authority, lease with
    | some authority, some lease => authority s child parent lease
    | _, _ => .ok ()
  orRaiseError answer

/-- The arguments of a reservation. -/
structure Request where
  identity : EffectIdentity
  parent : ExecutionHandle
  plan : ChildPlan
  input : Json
  taskReference : Option String

/-- `task_reference or identity.task_reference`. -/
def Request.reference (r : Request) : String :=
  match r.taskReference with
  | some reference => if reference = "" then r.identity.taskReference else reference
  | none => r.identity.taskReference

def reserveNew (policy : ChildPolicy) (r : Request) (digest : String) (ids : DrawnIds) :
    Transaction OwaError ChildStore ExecutionHandle := do
  let parent := r.parent.record.identity
  let spot ← place sv policy parent
  let budget ← soundBudget sv spot.1 "child workflow budget is inconsistent"
  let count ← read (bindingCount spot.1)
  raiseIf (count ≠ budget.used) (refuse "child workflow budget history is inconsistent")
  raiseIf (budget.maxDepth < spot.2 ∨ budget.maxChildren ≤ budget.used)
    ⟨.workflowExecutionError, "child workflow execution budget exhausted",
      [("max_depth", .int budget.maxDepth), ("max_children", .int budget.maxChildren)]⟩
  let child ← onRuntime (Invocations.createInTransaction
    (childIdentity parent r.plan r.reference ids) ids.revision (some r.input) none)
  recordBinding sv
    { key := sv.key r.identity
      rootId := spot.1
      parentId := parent.invocationId
      childId := child.record.identity.invocationId
      depth := spot.2
      requestDigest := digest
      workflowSource := r.plan.source
      parentTaskReference := r.reference }
  participate sv child r.parent r.parent.executionLease
  return child

/-- A repeated request answers the reserved child if it is the same request. -/
def reserveFound (policy : ChildPolicy) (r : Request) (digest : String) (ids : DrawnIds)
    (existing : Option ChildBinding) : Transaction OwaError ChildStore ExecutionHandle :=
  match existing with
  | some binding => do
      raiseIf (binding.requestDigest ≠ digest ∨ binding.workflowSource ≠ r.plan.source)
        (refuse "saved child workflow request changed")
      raiseIf (binding.parentTaskReference ≠ r.reference)
        (refuse "saved child task reference changed")
      verify sv binding r.parent r.plan r.input
  | none => reserveNew sv policy r digest ids

/-- `reserve`. -/
def reserve (policy : ChildPolicy) (r : Request) (ids : DrawnIds) :
    Transaction OwaError ChildStore ExecutionHandle := do
  let parent := r.parent.record.identity
  raiseIf (r.identity.operation ≠ "run:workflow" ∨
      r.identity.invocationId ≠ parent.invocationId ∨
      r.identity.workflowFingerprint ≠ parent.workflowFingerprint ∨
      r.parent.executionLease = none)
    (.plain .invocationStateConflict "child reservation requires current parent authority")
  let digest ← orRaiseError (effectRequestDigest sv.hash "run:workflow"
    (childRequest r.plan.fingerprint r.input))
  Ownership.ownedWriteTransaction (fun s => s.runtime.owners) r.parent.executionLease
    parent.invocationId parent.workflowFingerprint do
      let existing ← get sv r.identity
      reserveFound sv policy r digest ids existing

end Children
