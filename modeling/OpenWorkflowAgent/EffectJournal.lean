/-
# The effect journal

`effects.py` and `_effect_storage.py`: intents and outcomes of workflow actions.
An action is named by its `EffectIdentity`; the journal keeps one row per identity
key, first a pending intent of one owner, later its outcome.  Rows are inserted
with `ON CONFLICT DO NOTHING` and resolved by an update that is conditional on the
owner and on the status `pending`.

A deployment brings the hash of identities and the checks that `get` makes of
receipts of its own kinds (`JournalServices`).  Participants of a transaction
(`intent`, `sealOutcome`) insert further completed receipts in it, or raise.

`resolveRow` is the only update of the table, `insertRows` the only insert; each
operation has one inversion lemma that says which of them a committed run made.
-/
import OpenWorkflowAgent.Invocations

open Transaction Procedure

/-! ## Identities and receipts -/

/-- `EffectIdentity`; `__post_init__` refuses any other value. -/
structure EffectIdentity where
  invocationId : String
  workflowFingerprint : String
  taskReference : String
  occurrence : List (String × ℕ)
  operation : String
  named : invocationId ≠ "" ∧ workflowFingerprint ≠ "" ∧ taskReference ≠ "" ∧ operation ≠ ""
  placed : occurrence ≠ [] ∧ ∀ step ∈ occurrence, step.1 ≠ "" ∧ 1 ≤ step.2

instance : DecidableEq EffectIdentity := fun a b =>
  decidable_of_iff (a.invocationId = b.invocationId ∧
      a.workflowFingerprint = b.workflowFingerprint ∧ a.taskReference = b.taskReference ∧
      a.occurrence = b.occurrence ∧ a.operation = b.operation)
    (by cases a; cases b; simp)

/-- The same place of the workflow under another operation. -/
def EffectIdentity.withOperation (identity : EffectIdentity) (operation : String)
    (h : operation ≠ "") : EffectIdentity :=
  { identity with
    operation := operation
    named := ⟨identity.named.1, identity.named.2.1, identity.named.2.2.1, h⟩ }

/-- The call of the first task of an invocation, for the examples. -/
def EffectIdentity.firstCall : EffectIdentity :=
  ⟨"i", "f", "/do/0", [("/do/0", 1)], "call:http", by decide, by decide⟩

/-- `asdict(identity)`, as the payload of a row carries it. -/
def EffectIdentity.value (identity : EffectIdentity) : Json :=
  .obj [("invocation_id", .str identity.invocationId),
    ("workflow_fingerprint", .str identity.workflowFingerprint),
    ("task_reference", .str identity.taskReference),
    ("occurrence", .arr (identity.occurrence.map fun step => .arr [.str step.1, .int step.2])),
    ("operation", .str identity.operation)]

/-! ## A text of an identity -/

section Text

/-- A text that ends where its own mark says. -/
def delimited : List Char → List Char
  | [] => ['.']
  | c :: cs => '-' :: c :: delimited cs

theorem delimited_append_inj {a b x y : List Char} (h : delimited a ++ x = delimited b ++ y) :
    a = b ∧ x = y := by
  induction a generalizing b with
  | nil => cases b with
    | nil => simpa [delimited] using h
    | cons => simp [delimited] at h
  | cons _ _ ih => cases b with
    | nil => simp [delimited] at h
    | cons =>
      simp only [delimited, List.cons_append, List.cons.injEq, true_and] at h
      obtain ⟨hrest, hxy⟩ := ih h.2
      exact ⟨by rw [h.1, hrest], hxy⟩

/-- The steps of an occurrence, each a name and a count. -/
def occurrenceChars : List (String × ℕ) → List Char
  | [] => ['.']
  | step :: rest => '-' ::
      (delimited step.1.toList ++ (delimited (List.replicate step.2 'i') ++ occurrenceChars rest))

theorem occurrenceChars_injective : Function.Injective occurrenceChars := by
  intro a
  induction a with
  | nil =>
    intro b h
    cases b with
    | nil => rfl
    | cons => simp [occurrenceChars] at h
  | cons _ _ ih =>
    intro b h
    cases b with
    | nil => simp [occurrenceChars] at h
    | cons =>
      simp only [occurrenceChars, List.cons.injEq, true_and] at h
      obtain ⟨hname, h⟩ := delimited_append_inj h
      obtain ⟨hcount, h⟩ := delimited_append_inj h
      have hlength := congrArg List.length hcount
      simp only [List.length_replicate] at hlength
      rw [ih h, Prod.ext (String.toList_injective hname) hlength]

/-- A text from which the identity can be read back. -/
def EffectIdentity.text (identity : EffectIdentity) : String :=
  String.ofList (delimited identity.invocationId.toList ++
    (delimited identity.workflowFingerprint.toList ++ (delimited identity.taskReference.toList ++
      (delimited identity.operation.toList ++ occurrenceChars identity.occurrence))))

theorem EffectIdentity.text_injective : Function.Injective EffectIdentity.text := by
  intro a b h
  have hchars := congrArg String.toList h
  simp only [EffectIdentity.text, String.toList_ofList] at hchars
  obtain ⟨hinvocation, hchars⟩ := delimited_append_inj hchars
  obtain ⟨hfingerprint, hchars⟩ := delimited_append_inj hchars
  obtain ⟨htask, hchars⟩ := delimited_append_inj hchars
  obtain ⟨hoperation, hchars⟩ := delimited_append_inj hchars
  cases a
  cases b
  simp only [EffectIdentity.mk.injEq]
  exact ⟨String.toList_injective hinvocation, String.toList_injective hfingerprint,
    String.toList_injective htask, occurrenceChars_injective hchars,
    String.toList_injective hoperation⟩

end Text

/-- `effect_request_digest`: the hash of the operation and the sorted payload. -/
def effectRequestDigest (hash : String → Json → String) (operation : String) (payload : Json) :
    Except OwaError String :=
  if payload.valid then .ok (hash operation payload.canonical) else .error invalidExpressionData

theorem effectRequestDigest_eq_ok {hash : String → Json → String} {operation digest : String}
    {payload : Json} :
    effectRequestDigest hash operation payload = .ok digest ↔
      payload.valid = true ∧ hash operation payload.canonical = digest := by
  unfold effectRequestDigest
  by_cases hv : payload.valid = true
  · simp [hv]
  · simp [hv]

/-- `ChildInvocationDependency`: the terminal record of a child. -/
structure ChildInvocationDependency where
  invocationId : String
  recordDigest : String
  bindingDigest : Option String
  budgetDigest : Option String
  named : invocationId ≠ "" ∧ isSha256Hex recordDigest = true
  marked : bindingDigest.isSome = budgetDigest.isSome ∧
    bindingDigest.all isSha256Hex = true ∧ budgetDigest.all isSha256Hex = true
  deriving DecidableEq

inductive ReceiptStatus where
  | pending
  | completed
  | faulted
  deriving DecidableEq, Repr

/-- The fields of a receipt, as its payload carries them.  No output is `Json.null`. -/
structure ReceiptFields where
  requestDigest : String
  owner : String
  status : ReceiptStatus
  output : Json
  error : Option Json
  errorStatusCode : Option ℤ
  operationId : Option String
  childInvocation : Option ChildInvocationDependency
  externalOutcome : Option Json
  deriving DecidableEq

namespace ReceiptFields

/-- An error in the common contract: a code, a message and details. -/
def commonError (error : Json) : Bool :=
  match error.field? "code", error.field? "message", error.field? "details" with
  | some (.str _), some (.str _), some (.obj _) => true
  | _, _, _ => false

/-- The error that `EffectReceipt.__post_init__` raises, if any. -/
def problem (r : ReceiptFields) : Option OwaError :=
  if isSha256Hex r.requestDigest = false then
    some (.plain .valueError "workflow effect requires a SHA-256 request digest")
  else if r.owner = "" then
    some (.plain .valueError "workflow effect requires an execution owner")
  else if r.output.valid = false ∨ r.error.any (fun e => !e.valid) then
    some invalidExpressionData
  else if (r.status = .faulted) ≠ (r.error ≠ none) then
    some (.plain .valueError "workflow effect fault receipts require an error")
  else if r.status ≠ .completed ∧ r.output ≠ .null then
    some (.plain .valueError "only completed workflow effects have output")
  else if r.error.any (fun e => !commonError e) then
    some (.plain .valueError "workflow effect error must use the common error contract")
  else if r.errorStatusCode.any (fun code => r.error = none ∨ ¬ (100 ≤ code ∧ code ≤ 599)) then
    some (.plain .valueError "workflow effect common error status is invalid")
  else if r.childInvocation ≠ none ∧ r.status = .pending then
    some (.plain .valueError "workflow effect child dependency is invalid")
  else if r.externalOutcome ≠ none ∧ (r.status = .pending ∨ r.childInvocation ≠ none) then
    some (.plain .valueError "workflow effect external dependency is invalid")
  else none

/-- The payload as `json.dumps(…, sort_keys=True)` writes it. -/
def canonical (r : ReceiptFields) : ReceiptFields :=
  { r with
    output := r.output.canonical
    error := r.error.map Json.canonical
    externalOutcome := r.externalOutcome.map Json.canonical }

end ReceiptFields

/-- `EffectReceipt`: fields that pass `__post_init__`. -/
structure EffectReceipt extends ReceiptFields where
  sound : toReceiptFields.problem = none
  deriving DecidableEq

/-- Build a receipt, or raise what `__post_init__` raises. -/
def EffectReceipt.make (r : ReceiptFields) : Except OwaError EffectReceipt :=
  match h : r.problem with
  | none => .ok ⟨r, h⟩
  | some e => .error e

theorem EffectReceipt.make_eq_ok {r : ReceiptFields} {receipt : EffectReceipt}
    (h : EffectReceipt.make r = .ok receipt) : receipt.toReceiptFields = r := by
  unfold EffectReceipt.make at h
  split at h
  · cases h
    rfl
  · cases h

theorem EffectReceipt.faulted_iff (r : EffectReceipt) : r.status = .faulted ↔ r.error ≠ none := by
  have hs := r.sound
  unfold ReceiptFields.problem at hs
  split_ifs at hs with h₁ h₂ h₃ h₄
  exact iff_of_eq (not_not.mp h₄)

theorem EffectReceipt.error_of_faulted (r : EffectReceipt) (h : r.status = .faulted) :
    r.error ≠ none := r.faulted_iff.mp h

theorem EffectReceipt.error_of_completed (r : EffectReceipt) (h : r.status = .completed) :
    r.error = none := by
  by_contra herr
  have hfault := r.faulted_iff.mpr herr
  rw [h] at hfault
  cases hfault

/-! ## Tables -/

/-- A row of `workflow_effects`. -/
structure EffectRow where
  owner : String
  status : ReceiptStatus
  payload : ReceiptFields
  deriving DecidableEq

def EffectReceipt.row (r : EffectReceipt) : EffectRow := ⟨r.owner, r.status, r.toReceiptFields⟩

theorem EffectReceipt.make_row (receipt : EffectReceipt) :
    EffectReceipt.make receipt.row.payload = .ok receipt := by
  have hsound : receipt.row.payload.problem = none := receipt.sound
  unfold EffectReceipt.make
  split
  · rfl
  · next e he =>
      rw [hsound] at he
      cases he

/-- A row of `workflow_effect_invocations`. -/
structure EffectIndexRow where
  invocationId : String
  fingerprint : String
  payload : EffectIdentity
  deriving DecidableEq

def EffectIdentity.indexRow (identity : EffectIdentity) : EffectIndexRow :=
  ⟨identity.invocationId, identity.workflowFingerprint, identity⟩

/-- The tables of the journal, with the runtime tables and the bindings of child
workflows that its transactions read. -/
structure JournalStore where
  runtime : RuntimeStore
  effects : Table String EffectRow
  effectInvocations : Table String EffectIndexRow
  childBindings : Table String String
  /-- Auxiliary: the external actions started so far, as key and owner. -/
  dispatched : List (String × String)

/-- What a participant does in its caller's transaction: the completed receipts it
inserts, or the error it raises. -/
abbrev Participant := Except OwaError (List (EffectIdentity × EffectReceipt))

/-- What a deployment brings to the journal. -/
structure JournalServices where
  /-- `EffectIdentity.key`. -/
  key : EffectIdentity → String
  /-- The checks of `get` for the kinds of receipts the deployment has. -/
  verify : JournalStore → EffectIdentity → EffectReceipt → Bool
  /-- Whether the journal was built with an invocation store. -/
  invocations : Bool
  /-- `ChildInvocationDependency.capture`. -/
  captureChild : JournalStore → String → Except OwaError ChildInvocationDependency
  /-- `ChildInvocationDependency.verify`. -/
  verifyChild : JournalStore → ChildInvocationDependency → EffectIdentity → String → Bool
  /-- `_execution_authorization_intent`; the last argument is `first_intent`. -/
  intent : JournalStore → EffectIdentity → EffectReceipt → Option ExecutionLease → Bool →
    Participant
  /-- `_execution_authorization_seal`. -/
  sealOutcome : JournalStore → EffectIdentity → EffectReceipt → Option ExecutionLease → Participant

/-- Services that verify everything, keep one row per operation, know no children and
have no participants. -/
def JournalServices.permissive : JournalServices where
  key identity := identity.operation
  verify _ _ _ := true
  invocations := true
  captureChild _ _ :=
    .error (.plain .workflowExecutionError "child invocation outcome is unavailable")
  verifyChild _ _ _ _ := true
  intent _ _ _ _ _ := .ok []
  sealOutcome _ _ _ _ := .ok []

namespace EffectJournal

variable (sv : JournalServices)

/-! ## Reading -/

/-- The receipt of a stored row, after every check of `get`. -/
def decodeRow (s : JournalStore) (identity : EffectIdentity) (row : EffectRow) :
    Except OwaError EffectReceipt := do
  let receipt ← EffectReceipt.make row.payload
  raiseIf (receipt.owner ≠ row.owner ∨ receipt.status ≠ row.status)
    (.plain .valueError "workflow effect columns differ from the saved receipt")
  raiseIf (sv.verify s identity receipt = false)
    (.plain .valueError "workflow effect verification failed")
  raiseIf (identity.operation = "run:workflow" ∧ receipt.status ≠ .pending ∧
      receipt.childInvocation.all
        (fun child => !sv.verifyChild s child identity receipt.requestDigest))
    (.plain .valueError "child invocation binding is absent")
  raiseIf (¬ (identity.operation = "run:workflow" ∧ receipt.status ≠ .pending) ∧
      receipt.childInvocation ≠ none ∧ identity.operation ≠ "policy:child-wake:v1")
    (.plain .valueError "child invocation binding belongs to a different operation")
  raiseIf (identity.operation = "policy:retry-schedule:v1" ∧ receipt.status ≠ .completed)
    (.plain .valueError "retry scheduling requires an atomic decision")
  return receipt

/-- What `get` answers in a store. -/
def readReceipt (identity : EffectIdentity) (s : JournalStore) :
    Except OwaError (Option EffectReceipt) :=
  match s.effects.lookup (sv.key identity) with
  | none => .ok none
  | some row => match decodeRow sv s identity row with
    | .ok receipt => .ok (some receipt)
    | .error _ => .error
        (.plain .workflowExecutionError "workflow effect receipt could not be read")

/-- `get`. -/
def getReceipt (identity : EffectIdentity) :
    Transaction OwaError JournalStore (Option EffectReceipt) := do
  let answer ← read (readReceipt sv identity)
  orRaiseError answer

/-! ## Inserting -/

/-- `INSERT … ON CONFLICT DO NOTHING` into both tables. -/
def insertRows (identity : EffectIdentity) (receipt : EffectReceipt) (s : JournalStore) :
    JournalStore :=
  { s with
    effectInvocations := s.effectInvocations.insertNew (sv.key identity) identity.indexRow
    effects := s.effects.insertNew (sv.key identity) receipt.row }

/-- `_insert_receipt`: insert the row unless one is there, which then has to be the
same. -/
def insertReceipt (identity : EffectIdentity) (receipt : EffectReceipt) :
    Transaction OwaError JournalStore Unit := do
  let index ← read fun s => s.effectInvocations.lookup (sv.key identity)
  raiseIf (index ≠ none ∧ index ≠ some identity.indexRow)
    (.plain .workflowExecutionError "workflow effect identity index is inconsistent")
  write (insertRows sv identity receipt)
  let stored ← read fun s => s.effects.lookup (sv.key identity)
  raiseIf (¬ stored.any (fun row => row.owner = receipt.owner ∧ row.status = receipt.status ∧
      row.payload.canonical = receipt.canonical))
    (.plain .workflowExecutionError "workflow effect completed outcome is inconsistent")

/-- `insert_completed_receipt`. -/
def insertCompletedReceipt (identity : EffectIdentity) (receipt : EffectReceipt) :
    Transaction OwaError JournalStore Unit := do
  raiseIf (receipt.status ≠ .completed)
    (.plain .workflowExecutionError "atomic internal outcomes require a completed receipt")
  insertReceipt sv identity receipt

/-- `insert_pending_receipt`. -/
def insertPendingReceipt (identity : EffectIdentity) (receipt : EffectReceipt) :
    Transaction OwaError JournalStore Unit := do
  raiseIf (receipt.status ≠ .pending)
    (.plain .workflowExecutionError "atomic internal intents require a pending receipt")
  insertReceipt sv identity receipt

def insertAll : List (EffectIdentity × EffectReceipt) → Transaction OwaError JournalStore Unit
  | [] => pure ()
  | r :: rest => do
      insertCompletedReceipt sv r.1 r.2
      insertAll rest

/-- Run a participant in the caller's transaction. -/
def participate (participant : Participant) : Transaction OwaError JournalStore Unit := do
  let receipts ← orRaiseError participant
  insertAll sv receipts

/-- The intent participant runs only for an intent that is still pending. -/
def participateIntent (identity : EffectIdentity) (pending : EffectReceipt)
    (lease : Option ExecutionLease) (first : Bool) : Transaction OwaError JournalStore Unit := do
  if pending.status = .pending then
    let participant ← read fun s => sv.intent s identity pending lease first
    participate sv participant
  else pure ()

/-- The seal participant of a proposed outcome. -/
def participateSeal (identity : EffectIdentity) (proposed : EffectReceipt)
    (lease : Option ExecutionLease) : Transaction OwaError JournalStore Unit := do
  let participant ← read fun s => sv.sealOutcome s identity proposed lease
  participate sv participant

/-! ## Intents and decisions -/

/-- The transaction of an identity under its lease, if it has one. -/
def ownedBy {α : Type} (identity : EffectIdentity) (lease : Option ExecutionLease)
    (body : Transaction OwaError JournalStore α) : Transaction OwaError JournalStore α :=
  Ownership.ownedWriteTransaction (fun s => s.runtime.owners) lease identity.invocationId
    identity.workflowFingerprint body

/-- An `except` clause that hides every error but a lost ownership. -/
def hideError (message : String) (e : OwaError) : OwaError :=
  if e.kind = .invocationStateConflict then e else .plain .workflowExecutionError message

def intentFields (requestDigest owner : String) (operationId : Option String) : ReceiptFields :=
  ⟨requestDigest, owner, .pending, .null, none, none, operationId, none, none⟩

/-- The body of the transaction of `begin`. -/
def storeIntent (identity : EffectIdentity) (proposed : EffectReceipt)
    (lease : Option ExecutionLease) : Transaction OwaError JournalStore Unit := do
  let existing ← getReceipt sv identity
  let index ← read fun s => s.effectInvocations.lookup (sv.key identity)
  write (insertRows sv identity proposed)
  participateIntent sv identity (existing.getD proposed) lease
    (existing.isNone && index.isNone)

/-- The first step of `begin`: store the intent unless there is one. -/
def beginTransaction (identity : EffectIdentity) (requestDigest owner : String)
    (operationId : Option String) (lease : Option ExecutionLease) :
    Transaction OwaError JournalStore Unit :=
  mapError (hideError "workflow effect intent could not be stored") do
    let proposed ← orRaiseError (EffectReceipt.make (intentFields requestDigest owner operationId))
    ownedBy identity lease (storeIntent sv identity proposed lease)

/-- `begin`: the receipt of the first owner. -/
def begin {τ : Type} (identity : EffectIdentity) (requestDigest owner : String)
    (operationId : Option String) (lease : Option ExecutionLease) :
    Procedure OwaError τ JournalStore EffectReceipt := do
  Procedure.transaction (beginTransaction sv identity requestDigest owner operationId lease)
  let found ← Procedure.transaction (getReceipt sv identity)
  let recorded ← orRaise found
    (.plain .workflowExecutionError "workflow effect intent was not recorded")
  raiseIf (recorded.requestDigest ≠ requestDigest)
    (.plain .workflowExecutionError "workflow effect request differs from the saved intent")
  return recorded

/-- Decide a policy value where none is recorded.  `create` is what the factory
answers or raises. -/
def decideIfAbsent (identity : EffectIdentity) (requestDigest : String)
    (create : Except OwaError Json) (existing : Option EffectReceipt) :
    Transaction OwaError JournalStore Unit := do
  if existing = none then
    let output ← orRaiseError create
    let proposed ← orRaiseError (EffectReceipt.make
      ⟨requestDigest, "policy", .completed, output, none, none, none, none, none⟩)
    insertCompletedReceipt sv identity proposed
  else pure ()

/-- The body of the transaction of `record_value`. -/
def storeValue (identity : EffectIdentity) (requestDigest : String)
    (create : Except OwaError Json) : Transaction OwaError JournalStore EffectReceipt := do
  let existing ← getReceipt sv identity
  decideIfAbsent sv identity requestDigest create existing
  let found ← getReceipt sv identity
  let recorded ← orRaise found
    (.plain .workflowExecutionError "workflow policy decision is inconsistent")
  raiseIf (recorded.status ≠ .completed ∨ recorded.requestDigest ≠ requestDigest)
    (.plain .workflowExecutionError "workflow policy decision is inconsistent")
  return recorded

/-- `record_value`. -/
def recordValue (identity : EffectIdentity) (requestDigest : String)
    (create : Except OwaError Json) (lease : Option ExecutionLease) :
    Transaction OwaError JournalStore EffectReceipt := do
  raiseIf (identity.operation.startsWith "policy:" = false)
    (.plain .workflowExecutionError "atomic decisions require an internal policy identity")
  mapError (hideError "workflow policy decision could not be stored")
    (ownedBy identity lease (storeValue sv identity requestDigest create))

/-! ## Outcomes -/

/-- The arguments of a completion. -/
structure Outcome where
  output : Json
  error : Option Json
  errorStatusCode : Option ℤ
  operationId : Option String
  childInvocation : Option ChildInvocationDependency

/-- The receipt a completion proposes for the recorded intent. -/
def Outcome.proposed (o : Outcome) (recorded : ReceiptFields)
    (childInvocation : Option ChildInvocationDependency) : ReceiptFields :=
  { recorded with
    status := if o.error ≠ none then .faulted else .completed
    output := o.output
    error := o.error
    errorStatusCode := o.errorStatusCode
    operationId := o.operationId.or recorded.operationId
    childInvocation := childInvocation }

/-- `UPDATE … WHERE identity = ? AND owner = ? AND status = 'pending'`. -/
def resolveRow (identity : EffectIdentity) (owner : String) (proposed : EffectReceipt)
    (s : JournalStore) : JournalStore :=
  { s with
    effects := s.effects.updateWhere (sv.key identity)
      (fun row => row.owner = owner ∧ row.status = .pending)
      (fun row => { row with
        status := proposed.status
        payload := proposed.toReceiptFields }) }

/-- The second step of `finish`: commit the outcome if the intent is still pending. -/
def storeOutcome (identity : EffectIdentity) (owner : String) (recorded : EffectReceipt)
    (o : Outcome) : Transaction OwaError JournalStore Unit :=
  mapError
    (fun _ => .plain .workflowExecutionError "workflow effect outcome could not be stored") do
      let proposed ← orRaiseError
        (EffectReceipt.make (o.proposed recorded.toReceiptFields o.childInvocation))
      write (resolveRow sv identity owner proposed)

/-- `finish`: the first outcome of the owner of the intent. -/
def finish {τ : Type} (identity : EffectIdentity) (owner : String) (o : Outcome) :
    Procedure OwaError τ JournalStore EffectReceipt := do
  let found ← Procedure.transaction (getReceipt sv identity)
  let recorded ← orRaise found
    (.plain .workflowExecutionError "workflow effect completion does not own the intent")
  raiseIf (recorded.owner ≠ owner)
    (.plain .workflowExecutionError "workflow effect completion does not own the intent")
  Procedure.transaction (storeOutcome sv identity owner recorded o)
  let stored ← Procedure.transaction (getReceipt sv identity)
  let completed ← orRaise stored
    (.plain .workflowExecutionError "workflow effect outcome was not recorded")
  raiseIf (completed.owner ≠ owner ∨ completed.status = .pending)
    (.plain .workflowExecutionError "workflow effect outcome was not recorded")
  return completed

/-- Seal and commit the outcome of a pending intent, and check it under the guard. -/
def resolveOwned (identity : EffectIdentity) (owner : String) (lease : ExecutionLease)
    (recorded : EffectReceipt) (o : Outcome) :
    Transaction OwaError JournalStore EffectReceipt := do
  let proposed ← orRaiseError (EffectReceipt.make
    (o.proposed recorded.toReceiptFields (o.childInvocation.or recorded.childInvocation)))
  participateSeal sv identity proposed (some lease)
  write (resolveRow sv identity owner proposed)
  let completed ← getReceipt sv identity
  raiseIf (completed ≠ some proposed)
    (.plain .workflowExecutionError "action outcome was not atomically retained")
  let held ← read fun s => Ownership.writeGuard lease s.runtime.owners
  raiseIf (held = false) (.plain .invocationStateConflict "action completion ownership expired")
  return proposed

/-- A completion of an intent that is no longer pending answers what is recorded. -/
def resolveIfPending (recorded : EffectReceipt)
    (resolve : Transaction OwaError JournalStore EffectReceipt) :
    Transaction OwaError JournalStore EffectReceipt :=
  if recorded.status ≠ .pending then pure recorded else resolve

/-- The body of the transaction of `finish_owned`. -/
def storeOwned (identity : EffectIdentity) (owner : String) (lease : ExecutionLease)
    (o : Outcome) : Transaction OwaError JournalStore EffectReceipt := do
  let found ← getReceipt sv identity
  let recorded ← orRaise found
    (.plain .workflowExecutionError "action completion does not own the original intent")
  raiseIf (recorded.owner ≠ owner)
    (.plain .workflowExecutionError "action completion does not own the original intent")
  resolveIfPending recorded (resolveOwned sv identity owner lease recorded o)

/-- What `finish_owned` lets through of the errors of its transaction. -/
def ownedError (e : OwaError) : OwaError :=
  if e.kind = .authorizationOutcomeUnavailable then e
  else hideError "owned action outcome could not be stored" e

/-- `finish_owned`. -/
def finishOwned (identity : EffectIdentity) (owner : String) (lease : Option ExecutionLease)
    (o : Outcome) : Transaction OwaError JournalStore EffectReceipt := do
  let lease ← orRaise lease
    (.plain .invocationStateConflict "action completion requires current execution ownership")
  mapError ownedError (ownedBy identity (some lease) (storeOwned sv identity owner lease o))

/-- `finish_grpc`. -/
def finishGrpc (identity : EffectIdentity) (owner : String) (lease : Option ExecutionLease)
    (o : Outcome) : Transaction OwaError JournalStore EffectReceipt := do
  raiseIf (identity.operation ≠ "call:grpc" ∨ lease = none)
    (.plain .invocationStateConflict "gRPC completion requires current execution ownership")
  finishOwned sv identity owner lease { o with childInvocation := none }

/-- The receipt that `finish_child` proposes.  An empty error object counts as no
error for the status. -/
def proposedChild (recorded : ReceiptFields) (o : Outcome)
    (dependency : ChildInvocationDependency) : ReceiptFields :=
  { recorded with
    status := if o.error.any (· ≠ .obj []) then .faulted else .completed
    output := o.output
    error := o.error
    errorStatusCode := o.errorStatusCode
    childInvocation := some dependency }

/-- Capture the child's outcome, check that the intent is bound to it, and commit. -/
def resolveChild (identity : EffectIdentity) (requestDigest childId : String)
    (lease : ExecutionLease) (recorded : EffectReceipt) (o : Outcome) :
    Transaction OwaError JournalStore Unit := do
  let captured ← read fun s => sv.captureChild s childId
  let dependency ← orRaiseError captured
  let verified ← read fun s => sv.verifyChild s dependency identity requestDigest
  raiseIf (verified = false)
    (.plain .workflowExecutionError "child invocation dependency is inconsistent")
  let binding ← read fun s => s.childBindings.lookup (sv.key identity)
  raiseIf (binding ≠ some childId)
    (.plain .workflowExecutionError "child reconciliation binding differs")
  let proposed ← orRaiseError
    (EffectReceipt.make (proposedChild recorded.toReceiptFields o dependency))
  participateSeal sv identity proposed (some lease)
  write (resolveRow sv identity recorded.owner proposed)

/-- A receipt that is no longer pending is the answer; a pending one is resolved. -/
def resolveChildIfPending (identity : EffectIdentity) (requestDigest childId : String)
    (lease : ExecutionLease) (recorded : EffectReceipt) (o : Outcome) :
    Transaction OwaError JournalStore (Option EffectReceipt) :=
  if recorded.status ≠ .pending then pure (some recorded)
  else do
    resolveChild sv identity requestDigest childId lease recorded o
    return none

/-- The body of the transaction of `finish_child`. -/
def storeChild (identity : EffectIdentity) (requestDigest childId : String)
    (lease : ExecutionLease) (o : Outcome) :
    Transaction OwaError JournalStore (Option EffectReceipt) := do
  let found ← getReceipt sv identity
  let recorded ← orRaise found
    (.plain .workflowExecutionError "recorded child workflow request differs")
  raiseIf (recorded.requestDigest ≠ requestDigest)
    (.plain .workflowExecutionError "recorded child workflow request differs")
  resolveChildIfPending sv identity requestDigest childId lease recorded o

/-- The end of `finish_child`: read the outcome back unless it was there before. -/
def answerChild {τ : Type} (identity : EffectIdentity) (settled : Option EffectReceipt) :
    Procedure OwaError τ JournalStore EffectReceipt :=
  match settled with
  | some recorded => pure recorded
  | none => do
      let stored ← Procedure.transaction (getReceipt sv identity)
      let completed ← orRaise stored
        (.plain .workflowExecutionError "child outcome reconciliation was not recorded")
      raiseIf (completed.status = .pending)
        (.plain .workflowExecutionError "child outcome reconciliation was not recorded")
      return completed

/-- `finish_child`. -/
def finishChild {τ : Type} (identity : EffectIdentity) (requestDigest childId : String)
    (lease : Option ExecutionLease) (o : Outcome) :
    Procedure OwaError τ JournalStore EffectReceipt := do
  raiseIf (identity.operation ≠ "run:workflow" ∨ sv.invocations = false)
    (.plain .invocationStateConflict "child reconciliation requires parent authority")
  let lease ← orRaise lease
    (.plain .invocationStateConflict "child reconciliation requires parent authority")
  let settled ← Procedure.transaction
    (ownedBy identity (some lease) (storeChild sv identity requestDigest childId lease o))
  answerChild sv identity settled

/-! ## What each operation commits -/

variable {o : Outcome}

section Inversion

variable {sv} {s s' : JournalStore} {identity : EffectIdentity}

variable {receipt : EffectReceipt}

theorem decodeRow_eq_ok {row : EffectRow} (h : decodeRow sv s identity row = .ok receipt) :
    row = receipt.row := by
  simp only [decodeRow, except_eq_ok] at h
  obtain ⟨r, hmake, hcols, -, -, -, -, hr⟩ := h
  cases hr
  have hpayload := EffectReceipt.make_eq_ok hmake
  rw [not_or, not_not, not_not] at hcols
  cases row
  simp only [EffectReceipt.row, EffectRow.mk.injEq]
  exact ⟨hcols.1.symm, hcols.2.symm, hpayload.symm⟩

theorem readReceipt_eq_none (h : readReceipt sv identity s = .ok none) :
    s.effects.lookup (sv.key identity) = none := by
  unfold readReceipt at h
  split at h
  · assumption
  · split at h <;> cases h

theorem readReceipt_eq_some (h : readReceipt sv identity s = .ok (some receipt)) :
    s.effects.lookup (sv.key identity) = some receipt.row := by
  unfold readReceipt at h
  split at h
  · cases h
  · next row hrow =>
      split at h
      · next r hr =>
          cases h
          rw [hrow, decodeRow_eq_ok hr]
      · cases h

theorem readReceipt_verified (h : readReceipt sv identity s = .ok (some receipt)) :
    sv.verify s identity receipt = true := by
  unfold readReceipt at h
  split at h
  · cases h
  · split at h
    · next hr =>
        cases h
        simp only [decodeRow, except_eq_ok] at hr
        obtain ⟨r, -, -, hverify, -, -, -, hr⟩ := hr
        rw [← Except.ok.inj hr]
        exact Bool.not_eq_false _ ▸ hverify
    · cases h

theorem readReceipt_of_row (hrow : s.effects.lookup (sv.key identity) = some receipt.row)
    (hverify : sv.verify s identity receipt = true) (hop : identity.operation ≠ "run:workflow")
    (hstatus : receipt.status = .completed)
    (hchild : receipt.childInvocation = none ∨ identity.operation = "policy:child-wake:v1") :
    readReceipt sv identity s = .ok (some receipt) := by
  have hcols : ¬ (receipt.owner ≠ receipt.row.owner ∨ receipt.status ≠ receipt.row.status) := by
    simp [EffectReceipt.row]
  have hforeign : ¬ (¬ (identity.operation = "run:workflow" ∧ receipt.status ≠ .pending) ∧
      receipt.childInvocation ≠ none ∧ identity.operation ≠ "policy:child-wake:v1") := by
    rintro ⟨-, hc, ho⟩
    exact hchild.elim hc ho
  have hdecode : decodeRow sv s identity receipt.row = .ok receipt := by
    simp only [decodeRow, except_eq_ok]
    exact ⟨receipt, EffectReceipt.make_row receipt, hcols, by simp [hverify], fun hc => hop hc.1,
      hforeign, fun hc => hc.2 hstatus, rfl⟩
  unfold readReceipt
  rw [hrow]
  simp only [hdecode]

theorem getReceipt_eq_ok {found : Option EffectReceipt} :
    (getReceipt sv identity).run s = .ok (found, s') ↔
      readReceipt sv identity s = .ok found ∧ s = s' := by
  simp only [getReceipt, run_eq_ok]

/-! ### Inserting -/

/-- Rows were inserted at most: every row of either table is still there, and no
other table changed. -/
structure Inserts (s s' : JournalStore) : Prop where
  effects : ∀ k row, s.effects.lookup k = some row → s'.effects.lookup k = some row
  index : ∀ k row, s.effectInvocations.lookup k = some row →
    s'.effectInvocations.lookup k = some row
  runtime : s'.runtime = s.runtime
  childBindings : s'.childBindings = s.childBindings
  dispatched : s'.dispatched = s.dispatched

theorem Inserts.refl (s : JournalStore) : Inserts s s :=
  ⟨fun _ _ h => h, fun _ _ h => h, rfl, rfl, rfl⟩

variable {s₁ : JournalStore}

theorem Inserts.trans {s₂ s₃ : JournalStore} (h₁ : Inserts s₁ s₂) (h₂ : Inserts s₂ s₃) :
    Inserts s₁ s₃ where
  effects k row h := h₂.effects k row (h₁.effects k row h)
  index k row h := h₂.index k row (h₁.index k row h)
  runtime := h₂.runtime.trans h₁.runtime
  childBindings := h₂.childBindings.trans h₁.childBindings
  dispatched := h₂.dispatched.trans h₁.dispatched

theorem insertRows_inserts :
    Inserts s (insertRows sv identity receipt s) where
  effects _ _ h := Table.lookup_insertNew_of_some h
  index _ _ h := Table.lookup_insertNew_of_some h
  runtime := rfl
  childBindings := rfl
  dispatched := rfl

variable {u : Unit}

theorem insertReceipt_inserts
    (h : (insertReceipt sv identity receipt).run s = .ok (u, s')) : Inserts s s' := by
  simp only [insertReceipt, run_eq_ok] at h
  obtain ⟨-, -, rfl⟩ := h
  exact insertRows_inserts

theorem insertCompletedReceipt_inserts
    (h : (insertCompletedReceipt sv identity receipt).run s = .ok (u, s')) : Inserts s s' := by
  simp only [insertCompletedReceipt, run_eq_ok] at h
  obtain ⟨-, hinsert⟩ := h
  exact insertReceipt_inserts hinsert

/-- A committed insert leaves the rows of `insertRows`; an index row of the key that was
there before is the one of the identity. -/
theorem insertCompletedReceipt_eq_ok
    (h : (insertCompletedReceipt sv identity receipt).run s = .ok (u, s')) :
    receipt.status = .completed ∧ s' = insertRows sv identity receipt s ∧
      s'.effectInvocations.lookup (sv.key identity) = some identity.indexRow := by
  simp only [insertCompletedReceipt, insertReceipt, run_eq_ok] at h
  obtain ⟨hstatus, hindex, -, rfl⟩ := h
  refine ⟨not_not.mp hstatus, rfl, ?_⟩
  show (s.effectInvocations.insertNew (sv.key identity) identity.indexRow).lookup _ = _
  cases hl : s.effectInvocations.lookup (sv.key identity) with
  | none => exact Table.lookup_insertNew_self_of_none hl
  | some row =>
    rw [hl] at hindex
    have hrow : some row = some identity.indexRow := by
      by_contra hne
      exact hindex ⟨by simp, hne⟩
    rw [Table.lookup_insertNew_of_some hl, hrow]

theorem insertPendingReceipt_inserts
    (h : (insertPendingReceipt sv identity receipt).run s = .ok (u, s')) : Inserts s s' := by
  simp only [insertPendingReceipt, run_eq_ok] at h
  obtain ⟨-, hinsert⟩ := h
  exact insertReceipt_inserts hinsert

theorem insertAll_inserts {receipts : List (EffectIdentity × EffectReceipt)}
    (h : (insertAll sv receipts).run s = .ok (u, s')) : Inserts s s' := by
  induction receipts generalizing s with
  | nil =>
    obtain ⟨-, rfl⟩ := pure_eq_ok.mp h
    exact Inserts.refl s
  | cons _ _ ih =>
    unfold insertAll at h
    obtain ⟨_, s₁, hfirst, hrest⟩ := bind_eq_ok.mp h
    exact (insertCompletedReceipt_inserts hfirst).trans (ih hrest)

theorem participate_inserts {participant : Participant}
    (h : (participate sv participant).run s = .ok (u, s')) : Inserts s s' := by
  simp only [participate, run_eq_ok] at h
  obtain ⟨_, -, hall⟩ := h
  exact insertAll_inserts hall

variable {lease : Option ExecutionLease} {proposed : EffectReceipt} {requestDigest owner : String}

theorem participateIntent_inserts {pending : EffectReceipt} {first : Bool}
    (h : (participateIntent sv identity pending lease first).run s = .ok (u, s')) :
    Inserts s s' := by
  unfold participateIntent at h
  split at h
  · simp only [run_eq_ok] at h
    exact participate_inserts h
  · obtain ⟨-, rfl⟩ := pure_eq_ok.mp h
    exact Inserts.refl s

theorem participateSeal_inserts
    (h : (participateSeal sv identity proposed lease).run s = .ok (u, s')) :
    Inserts s s' := by
  simp only [participateSeal, run_eq_ok] at h
  exact participate_inserts h

theorem ownedBy_eq_ok {α : Type} {body : Transaction OwaError JournalStore α} {r : α × JournalStore} :
    
    (ownedBy identity lease body).run s = .ok r ↔
      (∀ l, lease = some l → l.invocationId = identity.invocationId ∧
        l.workflowFingerprint = identity.workflowFingerprint ∧
        Ownership.writeGuard l s.runtime.owners = true) ∧ body.run s = .ok r :=
  Ownership.ownedWriteTransaction_eq_ok

theorem beginTransaction_inserts {operationId : Option String}
    (h : (beginTransaction sv identity requestDigest owner operationId lease).run s =
      .ok (u, s')) : Inserts s s' := by
  simp only [beginTransaction, mapError_eq_ok, run_eq_ok, ownedBy_eq_ok] at h
  obtain ⟨proposed, -, -, hbody⟩ := h
  simp only [storeIntent, run_eq_ok, getReceipt_eq_ok] at hbody
  obtain ⟨_, -, hpart⟩ := hbody
  exact insertRows_inserts.trans (participateIntent_inserts hpart)

theorem decideIfAbsent_inserts {create : Except OwaError Json} {existing : Option EffectReceipt}
    (h : (decideIfAbsent sv identity requestDigest create existing).run s = .ok (u, s')) :
    
    Inserts s s' := by
  unfold decideIfAbsent at h
  split at h
  · simp only [run_eq_ok] at h
    obtain ⟨_, -, _, -, hinsert⟩ := h
    exact insertCompletedReceipt_inserts hinsert
  · obtain ⟨-, rfl⟩ := pure_eq_ok.mp h
    exact Inserts.refl s

theorem recordValue_inserts {create : Except OwaError Json}
    (h : (recordValue sv identity requestDigest create lease).run s = .ok (receipt, s')) :
    Inserts s s' := by
  simp only [recordValue, run_eq_ok, mapError_eq_ok, ownedBy_eq_ok] at h
  obtain ⟨-, -, hbody⟩ := h
  simp only [storeValue, run_eq_ok, getReceipt_eq_ok] at hbody
  obtain ⟨_, -, _, hdecide, _, -, _, -, -, -, rfl⟩ := hbody
  exact decideIfAbsent_inserts hdecide

/-! ### Resolving -/

/-- Every row keeps its owner and its request digest, and a row that is not pending
any more keeps everything. -/
structure WriteOnce (s s' : JournalStore) : Prop where
  effects : ∀ k row, s.effects.lookup k = some row → ∃ row', s'.effects.lookup k = some row' ∧
    row'.owner = row.owner ∧ row'.payload.requestDigest = row.payload.requestDigest ∧
    (row.status ≠ .pending → row' = row)
  index : ∀ k row, s.effectInvocations.lookup k = some row →
    s'.effectInvocations.lookup k = some row

theorem WriteOnce.refl (s : JournalStore) : WriteOnce s s :=
  ⟨fun _ row h => ⟨row, h, rfl, rfl, fun _ => rfl⟩, fun _ _ h => h⟩

theorem WriteOnce.trans {s₂ s₃ : JournalStore} (h₁ : WriteOnce s₁ s₂) (h₂ : WriteOnce s₂ s₃) :
    WriteOnce s₁ s₃ := by
  refine ⟨fun k row hrow => ?_, fun k row h => h₂.index k row (h₁.index k row h)⟩
  obtain ⟨row₂, hrow₂, howner₂, hdigest₂, hkept₂⟩ := h₁.effects k row hrow
  obtain ⟨row₃, hrow₃, howner₃, hdigest₃, hkept₃⟩ := h₂.effects k row₂ hrow₂
  refine ⟨row₃, hrow₃, howner₃.trans howner₂, hdigest₃.trans hdigest₂, fun hnot => ?_⟩
  have heq := hkept₂ hnot
  subst heq
  exact hkept₃ hnot

theorem Inserts.writeOnce (h : Inserts s s') : WriteOnce s s' :=
  ⟨fun k row hrow => ⟨row, h.effects k row hrow, rfl, rfl, fun _ => rfl⟩, h.index⟩

/-- A write-once change that resolves at most the row of `k`, and only if that row
has the given owner. -/
structure Resolves (k owner : String) (s s' : JournalStore) : Prop where
  writeOnce : WriteOnce s s'
  only : ∀ k' row row', s.effects.lookup k' = some row → s'.effects.lookup k' = some row' →
    row' ≠ row → k' = k ∧ row.owner = owner
  dispatched : s'.dispatched = s.dispatched

theorem Inserts.resolves {k : String} (h : Inserts s s') : Resolves k owner s s' := by
  refine ⟨h.writeOnce, fun k' row row' hrow hrow' hne => ?_, h.dispatched⟩
  have hsame := h.effects k' row hrow
  rw [hrow', Option.some.injEq] at hsame
  exact absurd hsame hne

/-- The update leaves every row with its owner, and changes the row of the identity
only where the owner and the status match. -/
theorem lookup_resolveRow {k : String} :
    (resolveRow sv identity owner proposed s).effects.lookup k =
      (s.effects.lookup k).map fun row =>
        if k = sv.key identity ∧ row.owner = owner ∧ row.status = .pending then
          ⟨row.owner, proposed.status, proposed.toReceiptFields⟩
        else row := by
  by_cases hk : k = sv.key identity
  · subst hk
    unfold resolveRow
    rw [Table.lookup_updateWhere_self]
    simp
  · unfold resolveRow
    rw [Table.lookup_updateWhere_ne hk]
    simp [hk]

/-- Rows inserted at most, and then the row of the identity resolved by a receipt
with the recorded digest. -/
theorem resolves_resolveRow (hins : Inserts s s₁)
    (hdigest : ∀ row, s₁.effects.lookup (sv.key identity) = some row → row.owner = owner →
      proposed.requestDigest = row.payload.requestDigest) :
    Resolves (sv.key identity) owner s (resolveRow sv identity owner proposed s₁) := by
  have hfinal : ∀ k row, s.effects.lookup k = some row →
      (resolveRow sv identity owner proposed s₁).effects.lookup k =
        some (if k = sv.key identity ∧ row.owner = owner ∧ row.status = .pending then
          ⟨row.owner, proposed.status, proposed.toReceiptFields⟩ else row) := by
    intro k row hrow
    rw [lookup_resolveRow, hins.effects k row hrow, Option.map_some]
  refine ⟨⟨fun k row hrow => ⟨_, hfinal k row hrow, ?_⟩, hins.index⟩, ?_, hins.dispatched⟩
  · by_cases hc : k = sv.key identity ∧ row.owner = owner ∧ row.status = .pending
    · rw [if_pos hc]
      obtain ⟨rfl, howner, hpending⟩ := hc
      exact ⟨rfl, hdigest row (hins.effects _ row hrow) howner,
        fun hnot => absurd hpending hnot⟩
    · rw [if_neg hc]
      exact ⟨rfl, rfl, fun _ => rfl⟩
  · intro k row row' hrow hrow' hne
    rw [hfinal k row hrow, Option.some.injEq] at hrow'
    by_cases hc : k = sv.key identity ∧ row.owner = owner ∧ row.status = .pending
    · exact ⟨hc.1, hc.2.1⟩
    · rw [if_neg hc] at hrow'
      exact absurd hrow'.symm hne

variable {recorded : EffectReceipt}

/-- The update of `finish` resolves the row whose receipt it read. -/
theorem storeOutcome_resolves
    (hrecorded : ∀ row, s.effects.lookup (sv.key identity) = some row →
      recorded.requestDigest = row.payload.requestDigest)
    (h : (storeOutcome sv identity owner recorded o).run s = .ok (u, s')) :
    Resolves (sv.key identity) owner s s' := by
  simp only [storeOutcome, mapError_eq_ok, run_eq_ok] at h
  obtain ⟨proposed, hmake, rfl⟩ := h
  refine resolves_resolveRow (Inserts.refl s) fun row hrow _ => ?_
  have hfields := EffectReceipt.make_eq_ok hmake
  rw [hfields]
  exact hrecorded row hrow

/-- After inserts, the row of a receipt that was read is still its row. -/
theorem Inserts.digest_of_read {row : EffectRow} (hins : Inserts s s₁)
    (hread : readReceipt sv identity s = .ok (some recorded))
    (hrow : s₁.effects.lookup (sv.key identity) = some row) : row = recorded.row := by
  have hsame := hins.effects _ _ (readReceipt_eq_some hread)
  rw [hrow, Option.some.injEq] at hsame
  exact hsame

theorem resolveOwned_resolves {lease : ExecutionLease}
    (hread : readReceipt sv identity s = .ok (some recorded))
    (h : (resolveOwned sv identity owner lease recorded o).run s = .ok (receipt, s')) :
    Resolves (sv.key identity) owner s s' := by
  simp only [resolveOwned, run_eq_ok, getReceipt_eq_ok] at h
  obtain ⟨proposed, hmake, s₁, hseal, _, -, -, -, -, rfl⟩ := h
  have hins := participateSeal_inserts hseal
  refine resolves_resolveRow hins fun row hrow _ => ?_
  rw [hins.digest_of_read hread hrow, EffectReceipt.make_eq_ok hmake]
  rfl

/-- `finish_owned` resolves the row only for the owner it carries. -/
theorem finishOwned_resolves (h : (finishOwned sv identity owner lease o).run s = .ok (receipt, s'))
    :
    Resolves (sv.key identity) owner s s' := by
  simp only [finishOwned, run_eq_ok, mapError_eq_ok, ownedBy_eq_ok] at h
  obtain ⟨l, -, -, hbody⟩ := h
  simp only [storeOwned, run_eq_ok, getReceipt_eq_ok] at hbody
  obtain ⟨found, hread, recorded, rfl, -, hresolve⟩ := hbody
  unfold resolveIfPending at hresolve
  split at hresolve
  · obtain ⟨-, rfl⟩ := pure_eq_ok.mp hresolve
    exact (Inserts.refl s).resolves
  · exact resolveOwned_resolves hread hresolve

theorem finishGrpc_resolves (h : (finishGrpc sv identity owner lease o).run s = .ok (receipt, s')) :
    Resolves (sv.key identity) owner s s' := by
  simp only [finishGrpc, run_eq_ok] at h
  obtain ⟨-, hfinish⟩ := h
  exact finishOwned_resolves hfinish

/-- `finish_owned` answers the row of the identity, which is resolved. -/
theorem finishOwned_answer (h : (finishOwned sv identity owner lease o).run s = .ok (receipt, s')) :
    s'.effects.lookup (sv.key identity) = some receipt.row ∧ receipt.status ≠ .pending := by
  simp only [finishOwned, run_eq_ok, mapError_eq_ok, ownedBy_eq_ok] at h
  obtain ⟨l, -, -, hbody⟩ := h
  simp only [storeOwned, run_eq_ok, getReceipt_eq_ok] at hbody
  obtain ⟨found, hread, recorded, rfl, -, hresolve⟩ := hbody
  unfold resolveIfPending at hresolve
  split at hresolve
  · next hdone =>
      obtain ⟨rfl, rfl⟩ := pure_eq_ok.mp hresolve
      exact ⟨readReceipt_eq_some hread, hdone⟩
  · unfold resolveOwned at hresolve
    simp only [run_eq_ok, getReceipt_eq_ok] at hresolve
    obtain ⟨proposed, hmake, s₁, -, completed, hstored, hsame, -, rfl, rfl⟩ := hresolve
    rw [not_not.mp hsame] at hstored
    refine ⟨readReceipt_eq_some hstored, ?_⟩
    rw [EffectReceipt.make_eq_ok hmake]
    show (if o.error ≠ none then ReceiptStatus.faulted else .completed) ≠ .pending
    split <;> decide

theorem finishGrpc_answer (h : (finishGrpc sv identity owner lease o).run s = .ok (receipt, s')) :
    s'.effects.lookup (sv.key identity) = some receipt.row ∧ receipt.status ≠ .pending := by
  simp only [finishGrpc, run_eq_ok] at h
  obtain ⟨-, hfinish⟩ := h
  exact finishOwned_answer hfinish

/-- The authority of `finish_child`: the live lease of the parent invocation, and the
binding of the identity to the child. -/
structure ChildAuthority (sv : JournalServices) (identity : EffectIdentity) (childId : String)
    (lease : ExecutionLease) (s : JournalStore) : Prop where
  invocation : lease.invocationId = identity.invocationId
  fingerprint : lease.workflowFingerprint = identity.workflowFingerprint
  live : Ownership.writeGuard lease s.runtime.owners = true
  bound : s.childBindings.lookup (sv.key identity) = some childId

/-- `finish_child` leaves the tables alone, or resolves the row of the identity, with
its own owner, under the authority of the parent. -/
theorem storeChild_resolves {childId : String} {lease : ExecutionLease}
    {settled : Option EffectReceipt} (h : (ownedBy identity (some lease)
      (storeChild sv identity requestDigest childId lease o)).run s = .ok (settled, s')) :
    s' = s ∨ ∃ owner, Resolves (sv.key identity) owner s s' ∧
      ChildAuthority sv identity childId lease s := by
  obtain ⟨hguard, hbody⟩ := ownedBy_eq_ok.mp h
  obtain ⟨hid, hfp, hlive⟩ := hguard lease rfl
  simp only [storeChild, run_eq_ok, getReceipt_eq_ok] at hbody
  obtain ⟨found, hread, recorded, rfl, -, hresolve⟩ := hbody
  unfold resolveChildIfPending at hresolve
  split at hresolve
  · exact Or.inl (pure_eq_ok.mp hresolve).2.symm
  · unfold resolveChild at hresolve
    simp only [run_eq_ok] at hresolve
    obtain ⟨_, ⟨dependency, -, -, hbound, proposed, hmake, s₁, hseal, rfl⟩, -, rfl⟩ := hresolve
    have hins := participateSeal_inserts hseal
    refine Or.inr ⟨recorded.owner, resolves_resolveRow hins fun row hrow _ => ?_, hid, hfp, hlive,
      not_not.mp hbound⟩
    rw [hins.digest_of_read hread hrow, EffectReceipt.make_eq_ok hmake]
    rfl

end Inversion

/-! ## Completions under interference

A process that keeps an assertion `K` about the tables can call `begin` and `finish`
among others that write rows once. -/

section Interference

variable {sv} {τ α : Type} {inv K : JournalStore → Prop}
  {rely guar may : JournalStore → JournalStore → Prop} {identity : EffectIdentity}
  {m : τ} {s : JournalStore}

/-- The others write rows once, and `K` survives them and the steps `may` of the
process itself. -/
structure Allows (inv K : JournalStore → Prop)
    (rely guar may : JournalStore → JournalStore → Prop) : Prop where
  writeOnce : ∀ s s', rely s s' → WriteOnce s s'
  stable : ∀ s s', K s → rely s s' → inv s' → K s'
  refl : ∀ s, may s s
  steps : ∀ s s', K s → inv s → may s s' → guar s s' ∧ K s'

section

variable (h : Allows inv K rely guar may)

include h

/-- One transaction whose committed runs are steps of the process. -/
theorem Allows.holds_transaction {t : Transaction OwaError JournalStore α}
    {post : Except OwaError α → τ → JournalStore → Prop} (hK : K s)
    (ht : ∀ s₁ a s₂, rely s s₁ → t.run s₁ = .ok (a, s₂) → may s₁ s₂)
    (herr : ∀ e s₁, K s₁ → post (.error e) m s₁)
    (hok : ∀ s₁ a s₂, rely s s₁ → t.run s₁ = .ok (a, s₂) → K s₂ → post (.ok a) m s₂) :
    Procedure.Holds inv rely guar post (Procedure.transaction t) m s := by
  rw [Procedure.holds_transaction]
  intro s₁ hr hi
  have hK₁ := h.stable s s₁ hK hr hi
  cases hans : t.answer s₁ with
  | error e =>
    rw [after_of_error hans]
    exact ⟨(h.steps s₁ s₁ hK₁ hi (h.refl s₁)).1, herr e s₁ hK₁⟩
  | ok a =>
    obtain ⟨s₂, hrun⟩ := answer_eq_ok.mp hans
    rw [after_of_ok hrun]
    obtain ⟨hg, hK₂⟩ := h.steps s₁ s₂ hK₁ hi (ht s₁ a s₂ hr hrun)
    exact ⟨hg, hok s₁ a s₂ hr hrun hK₂⟩

/-- A transaction and what follows it. -/
theorem Allows.holds_transaction_bind {β : Type} {t : Transaction OwaError JournalStore α} {f : α → Procedure OwaError τ JournalStore β}
    {post : Except OwaError β → τ → JournalStore → Prop} (hK : K s)
    (ht : ∀ s₁ a s₂, rely s s₁ → t.run s₁ = .ok (a, s₂) → may s₁ s₂)
    (herr : ∀ e s₁, K s₁ → post (.error e) m s₁)
    (hok : ∀ s₁ a s₂, t.run s₁ = .ok (a, s₂) → K s₂ →
      Procedure.Holds inv rely guar post (f a) m s₂) :
    Procedure.Holds inv rely guar post (Procedure.transaction t >>= f) m s := by
  rw [holds_bind]
  exact h.holds_transaction hK ht herr fun s₁ a s₂ _ hrun hK₂ => hok s₁ a s₂ hrun hK₂

/-- A `get` and what follows it: the receipt that was found is the row of its key. -/
theorem Allows.holds_getReceipt_bind {f : Option EffectReceipt → Procedure OwaError τ JournalStore α}
    {post : Except OwaError α → τ → JournalStore → Prop} (hK : K s)
    (herr : ∀ e s₁, K s₁ → post (.error e) m s₁)
    (hok : ∀ s₁ found, readReceipt sv identity s₁ = .ok found → K s₁ →
      Procedure.Holds inv rely guar post (f found) m s₁) :
    Procedure.Holds inv rely guar post
      (Procedure.transaction (getReceipt sv identity) >>= f) m s := by
  refine h.holds_transaction_bind hK (fun s₁ found s₂ _ hrun => ?_) herr
    fun s₁ found s₂ hrun hK₂ => ?_
  · obtain ⟨-, rfl⟩ := getReceipt_eq_ok.mp hrun
    exact h.refl s₁
  · obtain ⟨hread, rfl⟩ := getReceipt_eq_ok.mp hrun
    exact hok s₁ found hread hK₂

theorem Allows.begin_holds (hmay : ∀ s s', Inserts s s' → may s s')
    {requestDigest owner : String} {operationId : Option String}
    {lease : Option ExecutionLease}
    {post : Except OwaError EffectReceipt → τ → JournalStore → Prop} (hK : K s)
    (herr : ∀ e s₁, K s₁ → post (.error e) m s₁)
    (hok : ∀ receipt s₁, K s₁ → s₁.effects.lookup (sv.key identity) = some receipt.row →
      post (.ok receipt) m s₁) :
    Procedure.Holds inv rely guar post
      (begin sv identity requestDigest owner operationId lease) m s := by
  unfold begin
  refine h.holds_transaction_bind hK
    (fun _ _ _ _ hrun => hmay _ _ (beginTransaction_inserts hrun)) herr fun _ _ s₁ _ hK₁ => ?_
  refine h.holds_getReceipt_bind hK₁ herr fun s₂ found hread hK₂ => ?_
  simp only [holds_orRaise_bind, holds_raiseIf_bind, holds_pure]
  refine ⟨fun _ => herr _ s₂ hK₂, ?_⟩
  rintro receipt rfl
  exact ⟨fun _ => herr _ s₂ hK₂, fun _ => hok receipt s₂ hK₂ (readReceipt_eq_some hread)⟩

theorem Allows.finish_holds {owner : String}
    (hmay : ∀ s s', Resolves (sv.key identity) owner s s' → may s s')
    {post : Except OwaError EffectReceipt → τ → JournalStore → Prop} (hK : K s)
    (herr : ∀ e s₁, K s₁ → post (.error e) m s₁)
    (hok : ∀ receipt s₁, K s₁ → s₁.effects.lookup (sv.key identity) = some receipt.row →
      receipt.status ≠ .pending → post (.ok receipt) m s₁) :
    Procedure.Holds inv rely guar post (finish sv identity owner o) m s := by
  unfold finish
  refine h.holds_getReceipt_bind hK herr fun s₁ found hread hK₁ => ?_
  simp only [holds_orRaise_bind, holds_raiseIf_bind]
  refine ⟨fun _ => herr _ s₁ hK₁, ?_⟩
  rintro recorded rfl
  refine ⟨fun _ => herr _ s₁ hK₁, fun _ => ?_⟩
  refine h.holds_transaction_bind hK₁ (fun s₂ _ s₃ hr hrun => ?_) herr fun _ _ s₂ _ hK₂ => ?_
  · -- the row that was read is still there, with its digest, whoever resolved it since
    refine hmay _ _ (storeOutcome_resolves (fun row hrow => ?_) hrun)
    obtain ⟨row', hrow', -, hdigest, -⟩ :=
      (h.writeOnce _ _ hr).effects _ _ (readReceipt_eq_some hread)
    rw [hrow, Option.some.injEq] at hrow'
    rw [hrow', hdigest]
    rfl
  · refine h.holds_getReceipt_bind hK₂ herr fun s₃ stored hstored hK₃ => ?_
    simp only [holds_orRaise_bind, holds_raiseIf_bind, holds_pure]
    refine ⟨fun _ => herr _ s₃ hK₃, ?_⟩
    rintro completed rfl
    refine ⟨fun _ => herr _ s₃ hK₃, fun hdone => ?_⟩
    exact hok completed s₃ hK₃ (readReceipt_eq_some hstored) (not_or.mp hdone).2

end

end Interference

end EffectJournal
