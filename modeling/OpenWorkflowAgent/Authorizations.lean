/-
# Authorized effects and their audit records

`execution_authorization.py` keeps, beside the effect journal, the authority that an invocation was
admitted with and three kinds of records about its effects: a decision per allowed action, an
intent per pending effect, and a seal per outcome.  They are written in different transactions:
decisions by `authorize` before an effect begins, the intent by `seal_intent` inside `begin`, and the
seal by `seal_business` inside `finish_owned` and `finish_child`.  `get` of the journal reads all of
them back (`verify_execution_authorization_business_receipt`) before it answers a receipt of a
`call:`, `run:`, `emit` or `listen` effect.

SHA-256 and the encoding of records are `Hashing`.  What the archive of definitions, the candidates
and the other tables say is `Evidence`: a field of the store that may change at any time.
-/
import OpenWorkflowAgent.EffectJournal

open Transaction

namespace Authorizations

/-! ## Authorities and policies -/

/-- `Principal`. -/
structure Principal where
  identity : String
  roles : List String
  scopes : List String
  audience : List String
  deriving DecidableEq

/-- `ExecutionAuthority`. -/
structure Authority where
  principal : Principal
  securityProfile : String
  deriving DecidableEq

/-- A rule of an `AuthorizationPolicy`. -/
structure Rule where
  actions : List String
  resources : List String
  roles : List String
  scopes : List String
  audience : List String
  deriving DecidableEq

/-- `ExecutionAuthorizationConfig`. -/
structure Policy where
  enabled : Bool
  id : String
  version : String
  maxBusinessReceiptBytes : ℕ
  rules : List Rule
  deriving DecidableEq

/-- One rule of `authorize` in security.py: roles and scopes have to be held, and some audience has
to be met. -/
def Rule.permits (r : Rule) (principal : Principal) (action resource : String) : Bool :=
  (action ∈ r.actions ∨ "*" ∈ r.actions) ∧ (resource ∈ r.resources ∨ "*" ∈ r.resources) ∧
    r.roles.all (· ∈ principal.roles) ∧ r.scopes.all (· ∈ principal.scopes) ∧
    (r.audience = [] ∨ r.audience.any (· ∈ principal.audience))

/-- `authorize` in security.py. -/
def permitted (principal : Principal) (policy : Policy) (action resource : String) : Bool :=
  policy.rules.any fun r => r.permits principal action resource

/-! ## Records -/

/-- `_archive_evidence`: what the archive says of an invocation. -/
structure Original where
  identity : InvocationIdentity
  definitionDigest : String
  inputDigest : String
  authorityDigest : Option String
  deriving DecidableEq

/-- The payload of `execution_authorities`. -/
structure AuthorityRecord where
  original : Original
  authority : Authority
  policy : Policy
  policyDigest : String
  candidateDigest : Option String
  deriving DecidableEq

structure Audit where
  principal : String
  action : String
  resource : String
  decision : String
  policyId : String
  policyVersion : String
  policyDigest : String
  policyEnforced : Bool
  generation : ℕ
  deriving DecidableEq

/-- The payload of `execution_authorization_decisions`. -/
structure DecisionRecord where
  businessIdentity : EffectIdentity
  authorityDigest : String
  requestDigest : String
  audit : Audit
  deriving DecidableEq

/-- The payload of `execution_authorization_intents`. -/
structure IntentRecord where
  businessIdentity : EffectIdentity
  authorityDigest : String
  pendingReceipt : ReceiptFields
  generation : ℕ
  deriving DecidableEq

structure SealedDecision where
  key : String
  receiptDigest : String
  deriving DecidableEq

/-- The payload of `execution_authorization_outcomes`. -/
structure SealRecord where
  businessIdentity : EffectIdentity
  authorityDigest : String
  receiptDigest : String
  decisions : List SealedDecision
  intentDigest : Option String
  deriving DecidableEq

/-- Everything that is digested. -/
inductive Record where
  | descriptor (authority : Authority)
  | policy (policy : Policy)
  | authority (record : AuthorityRecord)
  | decision (record : DecisionRecord)
  | intent (record : IntentRecord)
  | outcome (record : SealRecord)
  | permission (operation action resource : String)
  | operation (operation : String)
  | receipt (receipt : ReceiptFields)

/-- SHA-256 over encoded values, and the length of the encoding. -/
structure Hashing where
  /-- `EffectIdentity.key`. -/
  key : EffectIdentity → String
  /-- `_digest`, and the digest of `ReceiptDependency`. -/
  digest : Record → String
  /-- The length of `_encoded`. -/
  bytes : Record → ℕ
  /-- The hash of `effect_request_digest`. -/
  request : String → Json → String

/-- A row of an audit table, without its primary key. -/
structure AuditRow (α : Type) where
  invocationId : String
  fingerprint : String
  payload : α
  digest : String
  deriving DecidableEq

/-- A row of `execution_authorization_decisions`. -/
structure DecisionRow extends AuditRow DecisionRecord where
  businessKey : String
  deriving DecidableEq

/-- What the rest of the database and of the deployment say. -/
structure Evidence where
  /-- `_archive_evidence` of an invocation. -/
  original : String → Except OwaError Original
  /-- The candidate of an authority, if it has one, and its origin still verify. -/
  origin : AuthorityRecord → Bool
  /-- The archived definition or the effect index speaks of an execution authority. -/
  hinted : String → Bool
  /-- The checks of `get` for other kinds of receipts. -/
  verified : EffectIdentity → EffectReceipt → Bool

/-- The journal and the audit tables. -/
structure AuditStore where
  journal : JournalStore
  /-- `execution_authorities`, by invocation. -/
  authorities : Table String (AuditRow AuthorityRecord)
  /-- `execution_authorization_decisions`, by `decision_key`. -/
  decisions : Table String DecisionRow
  /-- `execution_authorization_intents`, by `business_key`. -/
  intents : Table String (AuditRow IntentRecord)
  /-- `execution_authorization_outcomes`, by `business_key`. -/
  outcomes : Table String (AuditRow SealRecord)
  evidence : Evidence

/-! ## Errors -/

def denied (reason : String) : OwaError :=
  ⟨.executionAuthorizationError, "execution authorization denied", [("reason", .str reason)]⟩

def invalid (reason : String) : OwaError :=
  ⟨.invocationStateError, "original execution authority is unavailable or inconsistent",
    [("reason", .str reason)]⟩

def conflict (message : String) : OwaError := .plain .invocationStateConflict message

/-! ## Identities and receipts of the records -/

def profile : String := "owa/execution-authorization/v1"

def maxRecordBytes : ℕ := 262144

def maxDecisions : ℕ := 512

def maxBusinessDecisions : ℕ := 128

variable (H : Hashing)

/-- `decision_identity`. -/
def decisionIdentity (identity : EffectIdentity) (action resource : String) : EffectIdentity :=
  identity.withOperation
    ("policy:execution-authorization:v1:" ++
      H.digest (.permission identity.operation action resource))
    (append_ne_empty _ (by decide))

/-- `intent_identity`. -/
def intentIdentity (identity : EffectIdentity) : EffectIdentity :=
  identity.withOperation
    ("policy:execution-authorization-intent:v1:" ++ H.digest (.operation identity.operation))
    (append_ne_empty _ (by decide))

def sealIdentity (identity : EffectIdentity) : EffectIdentity :=
  identity.withOperation "policy:execution-authorization-seal:v1" (by decide)

/-- `authority_identity`, from the invocation and its definition. -/
def authorityIdentity (identity : EffectIdentity) : EffectIdentity :=
  { identity with
    taskReference := "/do"
    occurrence := [("/do", 1)]
    operation := "policy:execution-authority:v1"
    named := ⟨identity.named.1, identity.named.2.1, by decide, by decide⟩
    placed := by simp }

/-- `requires_authorization_seal`. -/
def requiresAuthorizationSeal (identity : EffectIdentity) : Bool :=
  "call:".toList.isPrefixOf identity.operation.toList ||
    "run:".toList.isPrefixOf identity.operation.toList ||
    identity.operation = "emit" || identity.operation = "listen"

/-- The completed receipt of a record: its request digest is that of its output. -/
def auditReceipt (operation owner : String) (output : Json) : Except OwaError EffectReceipt := do
  let requestDigest ← effectRequestDigest H.request operation output
  EffectReceipt.make ⟨requestDigest, owner, .completed, output, none, none, none, none, none⟩

/-- `_authority_receipt`. -/
def authorityReceipt (record : AuthorityRecord) : Except OwaError EffectReceipt :=
  auditReceipt H "policy:execution-authority:v1" "execution-authority"
    (.obj [("profile", .str profile), ("authority_digest", .str (H.digest (.authority record)))])

def Audit.value (a : Audit) : Json :=
  .obj [("principal", .str a.principal), ("action", .str a.action), ("resource", .str a.resource),
    ("decision", .str a.decision), ("policy_id", .str a.policyId),
    ("policy_version", .str a.policyVersion), ("policy_digest", .str a.policyDigest),
    ("policy_enforced", .bool a.policyEnforced), ("generation", .int a.generation)]

/-- `_decision_receipt`. -/
def decisionReceipt (record : DecisionRecord) : Except OwaError EffectReceipt :=
  auditReceipt H "policy:execution-authorization:v1" "execution-authorization"
    (.obj [("profile", .str profile), ("decision_digest", .str (H.digest (.decision record))),
      ("audit", record.audit.value)])

/-- `_intent_receipt`. -/
def intentReceipt (record : IntentRecord) : Except OwaError EffectReceipt :=
  auditReceipt H "policy:execution-authorization-intent:v1" "execution-authorization"
    (.obj [("profile", .str profile), ("intent_digest", .str (H.digest (.intent record)))])

/-- `_seal_receipt`. -/
def sealReceipt (record : SealRecord) : Except OwaError EffectReceipt :=
  auditReceipt H "policy:execution-authorization-seal:v1" "execution-authorization"
    (.obj [("profile", .str profile), ("seal_digest", .str (H.digest (.outcome record)))])

/-! ## Reading the records back -/

/-- `_read_receipt`: the journal has exactly this receipt under the identity. -/
def readStored (s : AuditStore) (identity : EffectIdentity) (expected : EffectReceipt)
    (limit : ℕ) : Except OwaError Unit := do
  raiseIf ((s.journal.effects.lookup (H.key identity)).any
      (fun row => limit < H.bytes (.receipt row.payload))) (invalid "authority_limit")
  raiseIf (s.journal.effects.lookup (H.key identity) ≠ some expected.row ∨
      s.journal.effectInvocations.lookup (H.key identity) ≠ some identity.indexRow)
    (invalid "authorization_receipt_missing_or_changed")

/-- `_record`: the payload of a row whose digest still fits. -/
def storedRecord {α : Type} (wrap : α → Record) : Option (AuditRow α) → Except OwaError (Option α)
  | none => .ok none
  | some row =>
    if maxRecordBytes < H.bytes (wrap row.payload) then .error (invalid "authority_limit")
    else if row.digest ≠ H.digest (wrap row.payload) then
      .error (invalid "authorization_record_changed")
    else .ok (some row.payload)

def readHandle (s : AuditStore) (invocationId : String) :
    Except OwaError (Option ExecutionHandle) :=
  (Invocations.getInvocation invocationId).answer s.journal.runtime

/-- `_authority_hint`: anything that says that the invocation has an authority. -/
def authorityHint (s : AuditStore) (identity : EffectIdentity) : Bool :=
  [H.key (authorityIdentity identity), H.key (sealIdentity identity),
      H.key (intentIdentity H identity)].any
    (fun key => (s.journal.effects.lookup key).isSome) ||
  s.evidence.hinted identity.invocationId ||
  (s.authorities.lookup identity.invocationId).isSome ||
  s.decisions.rows.any (fun r => r.2.invocationId = identity.invocationId) ||
  s.intents.rows.any (fun r => r.2.invocationId = identity.invocationId) ||
  s.outcomes.rows.any (fun r => r.2.invocationId = identity.invocationId)

/-- The identity under which the authority of an invocation is kept; every handle has one. -/
def handleIdentity (invocation : InvocationIdentity) : Option EffectIdentity :=
  if h : invocation.invocationId ≠ "" ∧ invocation.workflowFingerprint ≠ "" then
    some ⟨invocation.invocationId, invocation.workflowFingerprint, "/do", [("/do", 1)],
      "policy:execution-authority:v1", ⟨h.1, h.2, by decide, by decide⟩, by simp⟩
  else none

/-- An invocation without an authority record: nothing may speak of one. -/
def readUnbound (s : AuditStore) (identity : EffectIdentity) :
    Except OwaError (Option AuthorityRecord) :=
  if authorityHint H s identity then .error (invalid "authority_binding_missing") else .ok none

def authorityFits (s : AuditStore) (invocation : InvocationIdentity)
    (row : AuditRow AuthorityRecord) (record : AuthorityRecord) : Except OwaError Unit := do
  let original ← s.evidence.original invocation.invocationId
  raiseIf (record.original ≠ original ∨ record.policyDigest ≠ H.digest (.policy record.policy))
    (invalid "authority_binding_changed")
  raiseIf (row.fingerprint ≠ invocation.workflowFingerprint) (invalid "authority_binding_changed")
  raiseIf (invocation.ownerPrincipal ≠ some record.authority.principal.identity ∨
      record.original.authorityDigest ≠ some (H.digest (.descriptor record.authority)))
    (invalid "authority_owner_changed")
  raiseIf (s.evidence.origin record = false) (invalid "authority_origin_missing_or_changed")

/-- `_read_authority`. -/
def readAuthority (s : AuditStore) (invocation : InvocationIdentity) :
    Except OwaError (Option AuthorityRecord) := do
  let identity ← orRaise (handleIdentity invocation) (.plain .valueError "invalid effect identity")
  match s.authorities.lookup invocation.invocationId with
  | none => readUnbound H s identity
  | some row =>
    let _ ← storedRecord H .authority (some row)
    authorityFits H s invocation row row.payload
    let receipt ← authorityReceipt H row.payload
    readStored H s identity receipt maxRecordBytes
    pure (some row.payload)

/-- The decision is an allowance of the principal of the authority under its policy. -/
def auditFits (authority : AuthorityRecord) (d : DecisionRecord) : Bool :=
  d.authorityDigest = H.digest (.authority authority) ∧
  d.audit.principal = authority.authority.principal.identity ∧ d.audit.decision = "allow" ∧
  d.audit.policyDigest = authority.policyDigest ∧ d.audit.policyId = authority.policy.id ∧
  d.audit.policyVersion = authority.policy.version ∧
  d.audit.policyEnforced = authority.policy.enabled ∧ 1 ≤ d.audit.generation

/-- A bounded text without control characters. -/
def boundedText (text : String) (limit : ℕ) : Bool :=
  text ≠ "" ∧ text.utf8ByteSize ≤ limit ∧ text.toList.all fun c => 32 ≤ c.toNat

/-- The request is well formed and permitted. -/
def requestFits (authority : AuthorityRecord) (d : DecisionRecord) : Bool :=
  boundedText d.audit.action 128 ∧ boundedText d.audit.resource 4096 ∧
  isSha256Hex d.requestDigest ∧ authority.policy.enabled ∧
  permitted authority.authority.principal authority.policy d.audit.action d.audit.resource

/-- `_read_decision`, under an authority record that is known. -/
def readDecision (s : AuditStore) (authority : AuthorityRecord) (key : String) :
    Except OwaError DecisionRecord := do
  let row ← orRaise (s.decisions.lookup key) (invalid "authorization_decision_missing")
  let _ ← storedRecord H .decision (some row.toAuditRow)
  let handle ← readHandle s row.payload.businessIdentity.invocationId
  raiseIf ((handle.map fun h => h.record.identity.workflowFingerprint) ≠
    some row.payload.businessIdentity.workflowFingerprint)
    (invalid "authorization_invocation_missing")
  raiseIf (auditFits H authority row.payload = false) (invalid "authorization_decision_changed")
  raiseIf (requestFits authority row.payload = false) (invalid "authorization_decision_changed")
  let identity := decisionIdentity H row.payload.businessIdentity row.payload.audit.action
    row.payload.audit.resource
  raiseIf (H.key identity ≠ key) (invalid "authorization_decision_changed")
  raiseIf (row.businessKey ≠ H.key row.payload.businessIdentity ∨
    row.invocationId ≠ row.payload.businessIdentity.invocationId ∨
    row.fingerprint ≠ row.payload.businessIdentity.workflowFingerprint)
    (invalid "authorization_decision_changed")
  let receipt ← decisionReceipt H row.payload
  readStored H s identity receipt maxRecordBytes
  pure row.payload

/-- The pending receipt that an intent fixes is the one that `receipt` came from. -/
def intentFits (original : ReceiptFields) (receipt : EffectReceipt) : Bool :=
  original.status = .pending ∧ original.output = .null ∧ original.error = none ∧
  original.childInvocation = none ∧ original.externalOutcome = none ∧
  original.requestDigest = receipt.requestDigest ∧ original.owner = receipt.owner ∧
  (original.operationId = none ∨ original.operationId = receipt.operationId)

/-- `_read_intent`, under an authority record that is known. -/
def readIntent (s : AuditStore) (authority : AuthorityRecord) (identity : EffectIdentity)
    (receipt : EffectReceipt) : Except OwaError IntentRecord := do
  let value ← storedRecord H .intent (s.intents.lookup (H.key identity))
  let handle ← readHandle s identity.invocationId
  raiseIf ((handle.map fun h => h.record.identity.workflowFingerprint) ≠
    some identity.workflowFingerprint) (invalid "authorization_invocation_missing")
  let record ← orRaise value (invalid "authorization_intent_missing_or_changed")
  raiseIf (record.businessIdentity ≠ identity ∨
    record.authorityDigest ≠ H.digest (.authority authority) ∨ record.generation < 1)
    (invalid "authorization_intent_missing_or_changed")
  let original ← EffectReceipt.make record.pendingReceipt
  raiseIf (intentFits original.toReceiptFields receipt = false)
    (invalid "authorization_intent_changed")
  raiseIf ((s.intents.lookup (H.key identity)).any (fun row =>
    row.invocationId ≠ identity.invocationId ∨ row.fingerprint ≠ identity.workflowFingerprint))
    (invalid "authorization_intent_changed")
  let stored ← intentReceipt H record
  readStored H s (intentIdentity H identity) stored maxRecordBytes
  pure record

def decisionKeys (s : AuditStore) (businessKey : String) : List String :=
  ((s.decisions.selectRows fun _ row => row.businessKey = businessKey).map
    Prod.fst).insertionSort (· ≤ ·)

/-- The same with its `LIMIT`. -/
def limitedKeys (s : AuditStore) (businessKey : String) : List String :=
  (decisionKeys s businessKey).take (maxBusinessDecisions + 1)

/-- A decision that a seal names is still the one that was sealed. -/
def verifySealed (s : AuditStore) (authority : AuthorityRecord) (identity : EffectIdentity)
    (sealed : SealedDecision) : Except OwaError Unit := do
  let decision ← readDecision H s authority sealed.key
  let receipt ← decisionReceipt H decision
  raiseIf (decision.businessIdentity ≠ identity ∨
    H.digest (.receipt receipt.toReceiptFields) ≠ sealed.receiptDigest)
    (invalid "authorization_decision_changed")

/-- The checks of a seal against the receipt and the records. -/
def verifySeal (s : AuditStore) (authority : AuthorityRecord) (identity : EffectIdentity)
    (receipt : EffectReceipt) (intent : Option IntentRecord) (value : SealRecord) :
    Except OwaError Unit := do
  raiseIf (value.businessIdentity ≠ identity ∨
    value.authorityDigest ≠ H.digest (.authority authority) ∨
    value.receiptDigest ≠ H.digest (.receipt receipt.toReceiptFields) ∨
    value.intentDigest ≠ intent.map fun i => H.digest (.intent i))
    (invalid "authorization_outcome_seal_missing_or_changed")
  raiseIf ((s.outcomes.lookup (H.key identity)).any (fun row =>
    row.invocationId ≠ identity.invocationId ∨ row.fingerprint ≠ identity.workflowFingerprint))
    (invalid "authorization_outcome_seal_changed")
  raiseIf (value.decisions = [] ∨ maxBusinessDecisions < value.decisions.length)
    (invalid "authorization_outcome_seal_changed")
  raiseIf (value.decisions.map SealedDecision.key ≠ limitedKeys s (H.key identity))
    (invalid "authorization_decision_missing")
  value.decisions.forM (verifySealed H s authority identity)
  let stored ← sealReceipt H value
  readStored H s (sealIdentity identity) stored maxRecordBytes

/-- The intent is read back for a pending receipt, and wherever one was recorded. -/
def verifyIntent (s : AuditStore) (authority : AuthorityRecord) (identity : EffectIdentity)
    (receipt : EffectReceipt) (intent : Option IntentRecord) (value : Option SealRecord) :
    Except OwaError Unit :=
  if intent ≠ none ∨ receipt.status = .pending ∨ value.any (fun v => v.intentDigest ≠ none) then do
    let _ ← readIntent H s authority identity receipt
    pure ()
  else pure ()

/-- An outcome needs a seal. -/
def verifyOutcome (s : AuditStore) (authority : AuthorityRecord) (identity : EffectIdentity)
    (receipt : EffectReceipt) (intent : Option IntentRecord) (value : Option SealRecord) :
    Except OwaError Unit :=
  if receipt.status = .pending then pure ()
  else do
    let record ← orRaise value (invalid "authorization_outcome_seal_missing_or_changed")
    verifySeal H s authority identity receipt intent record

/-- An effect of an invocation with an enabled policy. -/
def verifyProtected (s : AuditStore) (authority : AuthorityRecord) (identity : EffectIdentity)
    (receipt : EffectReceipt) (value : Option SealRecord) : Except OwaError Unit := do
  readStored H s identity receipt authority.policy.maxBusinessReceiptBytes
  let intent ← storedRecord H .intent (s.intents.lookup (H.key identity))
  verifyIntent H s authority identity receipt intent value
  verifyOutcome H s authority identity receipt intent value

/-- What an authority record, or its absence, asks of an effect. -/
def verifyUnder (s : AuditStore) (identity : EffectIdentity) (receipt : EffectReceipt)
    (value : Option SealRecord) : Option AuthorityRecord → Except OwaError Unit
  | none =>
    if authorityHint H s identity then .error (invalid "authority_binding_missing")
    else if value ≠ none then .error (invalid "authorization_outcome_seal_missing_or_changed")
    else raiseIf ((s.intents.lookup (H.key identity)).isSome ∨
      decisionKeys s (H.key identity) ≠ []) (invalid "authority_binding_missing")
  | some authority =>
    if authority.policy.enabled = false then
      raiseIf (value ≠ none) (invalid "authorization_unexpected_seal")
    else verifyProtected H s authority identity receipt value

/-- The invocation of an effect, where there is one. -/
def verifyOf (s : AuditStore) (identity : EffectIdentity) (receipt : EffectReceipt) :
    Option ExecutionHandle → Except OwaError Unit
  | none => raiseIf (authorityHint H s identity) (invalid "authorization_invocation_missing")
  | some handle => do
    raiseIf (handle.record.identity.workflowFingerprint ≠ identity.workflowFingerprint)
      (invalid "authorization_invocation_changed")
    let authority ← readAuthority H s handle.record.identity
    let value ← storedRecord H .outcome (s.outcomes.lookup (H.key identity))
    verifyUnder H s identity receipt value authority

/-- `verify_execution_authorization_business_receipt`. -/
def verifyBusinessReceipt (s : AuditStore) (identity : EffectIdentity) (receipt : EffectReceipt) :
    Except OwaError Unit :=
  if requiresAuthorizationSeal identity = false then pure ()
  else do
    let handle ← readHandle s identity.invocationId
    verifyOf H s identity receipt handle

/-! ## The journal over the audit tables -/

/-- What a deployment brings for child invocations. -/
structure ChildServices where
  /-- `ChildInvocationDependency.capture`. -/
  capture : JournalStore → String → Except OwaError ChildInvocationDependency
  /-- `ChildInvocationDependency.verify`. -/
  verify : JournalStore → ChildInvocationDependency → EffectIdentity → String → Bool

variable (children : ChildServices)

/-- The checks of `get` over the audit tables of a store. -/
def services (s : AuditStore) : JournalServices where
  key := H.key
  verify _ identity receipt :=
    (verifyBusinessReceipt H s identity receipt).isOk && s.evidence.verified identity receipt
  invocations := true
  captureChild := children.capture
  verifyChild := children.verify
  intent _ _ _ _ _ := .ok []
  sealOutcome _ _ _ _ := .ok []

/-- What `get` of the journal answers. -/
def readReceipt (identity : EffectIdentity) (s : AuditStore) :
    Except OwaError (Option EffectReceipt) :=
  EffectJournal.readReceipt (services H children s) identity s.journal

abbrev AuditTransaction (α : Type) := Transaction OwaError AuditStore α

/-- `get`. -/
def getReceipt (identity : EffectIdentity) : AuditTransaction (Option EffectReceipt) := do
  let answer ← read (readReceipt H children identity)
  orRaiseError answer

def writeJournal (f : JournalStore → JournalStore) : AuditTransaction Unit :=
  write fun s => { s with journal := f s.journal }

/-- `insert_completed_receipt`. -/
def insertCompleted (identity : EffectIdentity) (receipt : EffectReceipt) : AuditTransaction Unit := do
  let s ← read id
  zoom AuditStore.journal (fun j s => { s with journal := j })
    (EffectJournal.insertCompletedReceipt (services H children s) identity receipt)

def guarded (lease : ExecutionLease) (message : String) : AuditTransaction Unit := do
  let held ← read fun s => Ownership.writeGuard lease s.journal.runtime.owners
  raiseIf (held = false) (conflict message)

/-- `owned_write_transaction` for an effect. -/
def ownedBy {α : Type} (identity : EffectIdentity) (lease : Option ExecutionLease)
    (body : AuditTransaction α) : AuditTransaction α :=
  Ownership.ownedWriteTransaction (fun s => s.journal.runtime.owners) lease identity.invocationId
    identity.workflowFingerprint body

/-! ## Executors -/

/-- What an executor brings: the deployed policy and security profiles, the authority of its
context, and what `verify_invocation` says of an invocation without a record. -/
structure Executor where
  /-- `config_provider`. -/
  policy : Policy
  /-- `static_principal` of a security profile. -/
  principalOf : String → Option Principal
  /-- `current_authority`. -/
  ambient : Option Authority
  /-- A candidate is reserved for the invocation. -/
  reserved : String → Bool
  unadmitted : InvocationIdentity → Except OwaError (Option Authority)

/-- `validate_authority`. -/
def Executor.validateAuthority (e : Executor) : Option Authority → Except OwaError Unit
  | none => raiseIf e.policy.enabled (denied "authority_required")
  | some authority =>
    raiseIf (e.principalOf authority.securityProfile ≠ some authority.principal)
      (denied "authority_profile_changed")

/-- `authorize_request`. -/
def Executor.authorizeRequest (e : Executor) (authority : Option Authority)
    (action resource : String) : Except OwaError Unit := do
  raiseIf (boundedText action 128 = false ∨ boundedText resource 4096 = false)
    (denied "action_resource_invalid")
  e.validateAuthority authority
  raiseIf (e.policy.enabled ∧
      authority.all (fun a => !permitted a.principal e.policy action resource))
    (denied "action_not_permitted")

/-- `_unbound_legacy`. -/
def Executor.unboundLegacy (e : Executor) (s : AuditStore) (identity : EffectIdentity) : Bool :=
  !e.policy.enabled && e.ambient.isNone && !authorityHint H s identity &&
    !e.reserved identity.invocationId

/-- `_known_receipt`: the stored payload as a receipt. -/
def knownReceipt (s : AuditStore) (identity : EffectIdentity) (limit : ℕ) :
    Except OwaError EffectReceipt := do
  let row ← orRaise (s.journal.effects.lookup (H.key identity))
    (invalid "authorization_business_receipt_missing")
  raiseIf (limit < H.bytes (.receipt row.payload)) (invalid "authority_limit")
  match EffectReceipt.make row.payload with
  | .ok receipt => pure receipt
  | .error _ => .error (invalid "authorization_business_receipt_invalid")

/-- An intent of the invocation still verifies. -/
def verifyIntentRow (s : AuditStore) (authority : AuthorityRecord) (key : String) :
    Except OwaError Unit := do
  let value ← storedRecord H .intent (s.intents.lookup key)
  let intent ← orRaise value (invalid "authorization_intent_missing_or_changed")
  let known ← knownReceipt H s intent.businessIdentity authority.policy.maxBusinessReceiptBytes
  readStored H s intent.businessIdentity known authority.policy.maxBusinessReceiptBytes
  let _ ← readIntent H s authority intent.businessIdentity known
  pure ()

/-- A receipt of the invocation still verifies, under its authority record. -/
def verifyKnown (s : AuditStore) (authority : AuthorityRecord) (identity : EffectIdentity) :
    Except OwaError Unit := do
  let known ← knownReceipt H s identity authority.policy.maxBusinessReceiptBytes
  let value ← storedRecord H .outcome (s.outcomes.lookup (H.key identity))
  verifyUnder H s identity known value (some authority)

/-- An outcome of the invocation still verifies. -/
def verifyOutcomeRow (s : AuditStore) (authority : AuthorityRecord) (key : String) :
    Except OwaError Unit := do
  let value ← storedRecord H .outcome (s.outcomes.lookup key)
  let outcome ← orRaise value (invalid "authorization_outcome_seal_missing_or_changed")
  verifyKnown H s authority outcome.businessIdentity

/-- Everything recorded of an invocation with an enabled policy. -/
def verifyRecords (s : AuditStore) (authority : AuthorityRecord) (invocationId : String) :
    Except OwaError Unit :=
  if authority.policy.enabled = false then pure ()
  else do
    let intents := s.intents.selectRows fun _ row => row.invocationId = invocationId
    raiseIf (maxDecisions < intents.length) (invalid "authority_limit")
    intents.forM fun r => verifyIntentRow H s authority r.1
    let outcomes := s.outcomes.selectRows fun _ row => row.invocationId = invocationId
    raiseIf (maxDecisions < outcomes.length) (invalid "authority_limit")
    outcomes.forM fun r => verifyOutcomeRow H s authority r.1
    let effects := s.journal.effectInvocations.selectRows fun key row =>
      row.invocationId = invocationId ∧ (s.journal.effects.lookup key).isSome
    raiseIf (4096 < effects.length) (invalid "authority_limit")
    (effects.filter fun r => requiresAuthorizationSeal r.2.payload).forM fun r =>
      verifyKnown H s authority r.2.payload

/-- `verify_invocation` with an authority record. -/
def Executor.verifyBound (e : Executor) (s : AuditStore) (invocation : InvocationIdentity)
    (record : AuthorityRecord) : Except OwaError Authority := do
  raiseIf (record.policy ≠ e.policy) (denied "execution_policy_changed")
  e.validateAuthority (some record.authority)
  let decisions := s.decisions.selectRows fun _ row => row.invocationId = invocation.invocationId
  raiseIf (maxDecisions < decisions.length) (invalid "authority_limit")
  decisions.forM fun r => do
    let _ ← readDecision H s record r.1
    pure ()
  verifyRecords H s record invocation.invocationId
  pure record.authority

/-- `verify_invocation`. -/
def Executor.verifyInvocation (e : Executor) (s : AuditStore) (invocation : InvocationIdentity) :
    Except OwaError (Option Authority) := do
  match ← readAuthority H s invocation with
  | some record =>
    let authority ← e.verifyBound H s invocation record
    pure (some authority)
  | none => e.unadmitted invocation

/-! ## Decisions -/

/-- `AuthorizationDecision`. -/
structure AuthorizationDecision where
  identity : EffectIdentity
  receipt : EffectReceipt
  audit : Audit

/-- A call of `authorize`. -/
structure AuthorizeCall where
  executor : Executor
  invocation : InvocationIdentity
  identity : EffectIdentity
  action : String
  resource : String
  requestDigest : String
  lease : Option ExecutionLease

def AuthorizeCall.value (c : AuthorizeCall) (authority : Authority) (record : AuthorityRecord)
    (generation : ℕ) : DecisionRecord where
  businessIdentity := c.identity
  authorityDigest := H.digest (.authority record)
  requestDigest := c.requestDigest
  audit := {
    principal := authority.principal.identity
    action := c.action
    resource := c.resource
    decision := "allow"
    policyId := c.executor.policy.id
    policyVersion := c.executor.policy.version
    policyDigest := H.digest (.policy c.executor.policy)
    policyEnforced := c.executor.policy.enabled
    generation := generation }

/-- The decision of the call, which keeps the generation of an earlier one. -/
def AuthorizeCall.decided (c : AuthorizeCall) (authority : Authority) (record : AuthorityRecord)
    (generation : ℕ) (original : Option DecisionRecord) : DecisionRecord :=
  c.value H authority record ((original.map fun d => d.audit.generation).getD generation)

def AuthorizeCall.selected (c : AuthorizeCall) : EffectIdentity :=
  decisionIdentity H c.identity c.action c.resource

/-- A decision is inserted once; a later one has to be the same. -/
def AuthorizeCall.insert (c : AuthorizeCall) (value : DecisionRecord) :
    Option DecisionRecord → AuditTransaction Unit
  | some original => raiseIf (original ≠ value) (invalid "authorization_decision_changed")
  | none => do
    let count ← read fun s =>
      (s.decisions.selectRows fun _ row => row.invocationId = c.invocation.invocationId).length
    raiseIf (maxDecisions ≤ count) (invalid "authority_limit")
    raiseIf (maxRecordBytes < H.bytes (.decision value)) (invalid "authority_limit")
    write fun s => { s with
      decisions := s.decisions.put (H.key (c.selected H))
        ⟨⟨c.invocation.invocationId, c.invocation.workflowFingerprint, value,
          H.digest (.decision value)⟩, H.key c.identity⟩ }

/-- The body of the transaction of `authorize`. -/
def AuthorizeCall.decide (c : AuthorizeCall) (authority : Authority) (record : AuthorityRecord)
    (lease : ExecutionLease) : AuditTransaction AuthorizationDecision := do
  let row ← read fun s => s.decisions.lookup (H.key (c.selected H))
  let original ← orRaiseError (storedRecord H .decision (row.map DecisionRow.toAuditRow))
  let value := c.decided H authority record lease.generation original
  c.insert H value original
  let receipt ← orRaiseError (decisionReceipt H value)
  insertCompleted H children (c.selected H) receipt
  let s ← read id
  let _ ← orRaiseError (readDecision H s record (H.key (c.selected H)))
  guarded lease "action authorization ownership expired"
  pure ⟨c.selected H, receipt, value.audit⟩

/-- The transaction of `authorize`, which only an execution owner makes. -/
def AuthorizeCall.store (c : AuthorizeCall) (authority : Authority) (record : AuthorityRecord) :
    AuditTransaction AuthorizationDecision := do
  raiseIf (c.identity.invocationId ≠ c.invocation.invocationId ∨
    c.identity.workflowFingerprint ≠ c.invocation.workflowFingerprint)
    (conflict "action authorization requires original execution ownership")
  let lease ← orRaise c.lease (conflict "action authorization requires original execution ownership")
  raiseIf (isSha256Hex c.requestDigest = false) (denied "request_digest_invalid")
  Ownership.ownedWriteTransaction (fun s => s.journal.runtime.owners) (some lease)
    c.invocation.invocationId c.invocation.workflowFingerprint
    (c.decide H children authority record lease)

abbrev Run (α : Type) := Procedure OwaError Unit AuditStore α

/-- The record that a principal is bound to decides whether there is anything to record. -/
def AuthorizeCall.under (c : AuthorizeCall) (authority : Authority) (record : AuthorityRecord) :
    Run (Option AuthorizationDecision) :=
  if record.policy.enabled = false then pure none
  else do
    let decision ← Procedure.transaction (c.store H children authority record)
    pure (some decision)

/-- `authorize` with the authority of the invocation. -/
def AuthorizeCall.bound (c : AuthorizeCall) :
    Option Authority → Run (Option AuthorizationDecision)
  | none => pure none
  | some authority => do
    let found ← Procedure.transaction (read fun s => readAuthority H s c.invocation)
    let value ← orRaiseError found
    let record ← orRaise value (invalid "authority_binding_missing")
    c.under H children authority record

/-- `authorize`. -/
def AuthorizeCall.run (c : AuthorizeCall) : Run (Option AuthorizationDecision) := do
  let found ← Procedure.transaction (read fun s => c.executor.verifyInvocation H s c.invocation)
  let authority ← orRaiseError found
  orRaiseError (c.executor.authorizeRequest authority c.action c.resource)
  c.bound H children authority

/-! ## Intents -/

def insertIntent (identity : EffectIdentity) (receipt : EffectReceipt) (lease : ExecutionLease)
    (authority : AuthorityRecord) : AuditTransaction Unit := do
  raiseIf (receipt.status ≠ .pending ∨ receipt.output ≠ .null ∨ receipt.error ≠ none ∨
    receipt.childInvocation ≠ none ∨ receipt.externalOutcome ≠ none)
    (invalid "authorization_intent_changed")
  let s ← read id
  let keys := limitedKeys s (H.key identity)
  raiseIf (keys = [] ∨ maxBusinessDecisions < keys.length) (invalid "authorization_decision_missing")
  orRaiseError (keys.forM fun key => do
    let _ ← readDecision H s authority key
    pure ())
  raiseIf (maxDecisions ≤
    (s.intents.selectRows fun _ row => row.invocationId = identity.invocationId).length)
    (invalid "authority_limit")
  let value : IntentRecord :=
    ⟨identity, H.digest (.authority authority), receipt.toReceiptFields, lease.generation⟩
  raiseIf (maxRecordBytes < H.bytes (.intent value)) (invalid "authority_limit")
  write fun s => { s with
    intents := s.intents.put (H.key identity)
      ⟨identity.invocationId, identity.workflowFingerprint, value, H.digest (.intent value)⟩ }
  let stored ← orRaiseError (intentReceipt H value)
  insertCompleted H children (intentIdentity H identity) stored
  guarded lease "intent audit ownership expired"

/-- The first intent is inserted; every later one has to be the recorded one. -/
def recordIntent (identity : EffectIdentity) (receipt : EffectReceipt) (lease : ExecutionLease)
    (first : Bool) (authority : AuthorityRecord) (existing : Option IntentRecord) :
    AuditTransaction Unit :=
  if existing ≠ none ∧ first then throw (invalid "authorization_intent_business_missing")
  else if existing ≠ none ∨ first = false then do
    let s ← read id
    let _ ← orRaiseError (readIntent H s authority identity receipt)
    pure ()
  else insertIntent H children identity receipt lease authority

/-- The intent of an effect of an invocation with an enabled policy. -/
def sealIntentUnder (e : Executor) (identity : EffectIdentity) (receipt : EffectReceipt)
    (lease : Option ExecutionLease) (first : Bool) (authority : AuthorityRecord) :
    AuditTransaction Unit := do
  raiseIf (authority.policy ≠ e.policy) (denied "execution_policy_changed")
  orRaiseError (e.validateAuthority (some authority.authority))
  let lease ← orRaise lease (conflict "intent audit requires current execution ownership")
  raiseIf (lease.invocationId ≠ identity.invocationId ∨
    lease.workflowFingerprint ≠ identity.workflowFingerprint)
    (conflict "intent audit requires current execution ownership")
  guarded lease "intent audit ownership changed"
  let row ← read fun s => s.intents.lookup (H.key identity)
  let existing ← orRaiseError (storedRecord H .intent row)
  recordIntent H children identity receipt lease first authority existing

/-- An invocation whose authority record says nothing of effects needs no intent. -/
def sealIntentOf (e : Executor) (identity : EffectIdentity) (receipt : EffectReceipt)
    (lease : Option ExecutionLease) (first : Bool) : Option AuthorityRecord → AuditTransaction Unit
  | none => do
    let hint ← read fun s => authorityHint H s identity
    raiseIf hint (invalid "authority_binding_missing")
  | some authority =>
    if authority.policy.enabled = false then pure ()
    else sealIntentUnder H children e identity receipt lease first authority

/-- The intent of an effect of a known invocation. -/
def sealIntentFor (e : Executor) (identity : EffectIdentity) (receipt : EffectReceipt)
    (lease : Option ExecutionLease) (first : Bool) : Option ExecutionHandle → AuditTransaction Unit
  | none => do
    let legacy ← read fun s => e.unboundLegacy H s identity
    raiseIf (legacy = false) (invalid "authorization_invocation_missing")
  | some handle => do
    let found ← read fun s => readAuthority H s handle.record.identity
    let authority ← orRaiseError found
    sealIntentOf H children e identity receipt lease first authority

/-- `seal_intent`; `begin` does not use its answer. -/
def sealIntent (e : Executor) (identity : EffectIdentity) (receipt : EffectReceipt)
    (lease : Option ExecutionLease) (first : Bool) : AuditTransaction Unit :=
  if requiresAuthorizationSeal identity = false then pure ()
  else do
    let found ← read fun s => readHandle s identity.invocationId
    let handle ← orRaiseError found
    sealIntentFor H children e identity receipt lease first handle

/-- The intent participant runs for an intent that is still pending. -/
def participateIntent (e : Executor) (identity : EffectIdentity) (pending : EffectReceipt)
    (lease : Option ExecutionLease) (first : Bool) : AuditTransaction Unit :=
  if pending.status = .pending then sealIntent H children e identity pending lease first
  else pure ()

/-- The arguments of `begin`. -/
structure BeginCall where
  executor : Executor
  identity : EffectIdentity
  requestDigest : String
  owner : String
  operationId : Option String
  lease : Option ExecutionLease

/-- The body of the transaction of `begin`. -/
def BeginCall.body (c : BeginCall) (proposed : EffectReceipt) : AuditTransaction Unit := do
  let existing ← getReceipt H children c.identity
  let index ← read fun s => s.journal.effectInvocations.lookup (H.key c.identity)
  let s ← read id
  writeJournal (EffectJournal.insertRows (services H children s) c.identity proposed)
  participateIntent H children c.executor c.identity (existing.getD proposed) c.lease
    (existing.isNone && index.isNone)

/-- The transaction of `begin`. -/
def BeginCall.store (c : BeginCall) : AuditTransaction Unit :=
  mapError (EffectJournal.hideError "workflow effect intent could not be stored") do
    let proposed ← orRaiseError (EffectReceipt.make
      (EffectJournal.intentFields c.requestDigest c.owner c.operationId))
    ownedBy c.identity c.lease (c.body H children proposed)

/-- `begin`. -/
def BeginCall.run (c : BeginCall) : Run EffectReceipt := do
  Procedure.transaction (c.store H children)
  let found ← Procedure.transaction (getReceipt H children c.identity)
  let recorded ← orRaise found
    (.plain .workflowExecutionError "workflow effect intent was not recorded")
  raiseIf (recorded.requestDigest ≠ c.requestDigest)
    (.plain .workflowExecutionError "workflow effect request differs from the saved intent")
  pure recorded

/-! ## Seals -/

/-- The decisions of an effect, each with the digest of its receipt. -/
def sealDecision (s : AuditStore) (authority : AuthorityRecord) (key : String) :
    Except OwaError SealedDecision := do
  let decision ← readDecision H s authority key
  let receipt ← decisionReceipt H decision
  pure ⟨key, H.digest (.receipt receipt.toReceiptFields)⟩

/-- Write the seal of an outcome; an earlier one has to be the same. -/
def writeSeal (identity : EffectIdentity) (value : SealRecord) : AuditTransaction Unit := do
  let row ← read fun s => s.outcomes.lookup (H.key identity)
  let original ← orRaiseError (storedRecord H .outcome row)
  raiseIf (original ≠ none ∧ original ≠ some value) (invalid "authorization_outcome_seal_changed")
  raiseIf (maxRecordBytes < H.bytes (.outcome value)) (invalid "authority_limit")
  write fun s => { s with
    outcomes := s.outcomes.insertNew (H.key identity)
      ⟨identity.invocationId, identity.workflowFingerprint, value, H.digest (.outcome value)⟩ }
  let stored ← orRaiseError (sealReceipt H value)
  insertCompleted H children (sealIdentity identity) stored

/-- The seal of an outcome of an invocation with an enabled policy. -/
def sealUnder (identity : EffectIdentity) (receipt : EffectReceipt)
    (lease : Option ExecutionLease) (authority : AuthorityRecord) : AuditTransaction Unit := do
  let lease ← orRaise lease (conflict "authorization outcome requires current execution ownership")
  raiseIf (lease.invocationId ≠ identity.invocationId ∨
    lease.workflowFingerprint ≠ identity.workflowFingerprint)
    (conflict "authorization outcome ownership changed")
  guarded lease "authorization outcome ownership changed"
  raiseIf (authority.policy.maxBusinessReceiptBytes < H.bytes (.receipt receipt.toReceiptFields))
    (.plain .authorizationOutcomeUnavailable
      "business outcome exceeds its protected audit boundary")
  let s ← read id
  let keys := limitedKeys s (H.key identity)
  raiseIf (keys = [] ∨ maxBusinessDecisions < keys.length) (invalid "authorization_decision_missing")
  let decisions ← orRaiseError (keys.mapM (sealDecision H s authority))
  let intent ← orRaiseError (storedRecord H .intent (s.intents.lookup (H.key identity)))
  writeSeal H children identity
    ⟨identity, H.digest (.authority authority), H.digest (.receipt receipt.toReceiptFields),
      decisions, intent.map fun i => H.digest (.intent i)⟩
  guarded lease "authorization outcome ownership expired"

/-- The seal, once the authority of the invocation verified. -/
def sealOf (identity : EffectIdentity) (receipt : EffectReceipt) (lease : Option ExecutionLease)
    (invocation : InvocationIdentity) : Option Authority → AuditTransaction Unit
  | none => do
    let hint ← read fun s => authorityHint H s identity
    raiseIf hint (invalid "authority_binding_missing")
  | some _ => do
    let found ← read fun s => readAuthority H s invocation
    let value ← orRaiseError found
    let record ← orRaise value (invalid "authority_binding_missing")
    if record.policy.enabled = false then pure ()
    else sealUnder H children identity receipt lease record

/-- The seal of an outcome of a known invocation. -/
def sealFor (e : Executor) (identity : EffectIdentity) (receipt : EffectReceipt)
    (lease : Option ExecutionLease) : Option ExecutionHandle → AuditTransaction Unit
  | none => do
    let legacy ← read fun s => e.unboundLegacy H s identity
    raiseIf (legacy = false) (invalid "authorization_invocation_missing")
  | some handle => do
    let found ← read fun s => e.verifyInvocation H s handle.record.identity
    let authority ← orRaiseError found
    sealOf H children identity receipt lease handle.record.identity authority

/-- `seal_business`. -/
def sealBusiness (e : Executor) (identity : EffectIdentity) (receipt : EffectReceipt)
    (lease : Option ExecutionLease) : AuditTransaction Unit :=
  if requiresAuthorizationSeal identity = false ∨ receipt.status = .pending then pure ()
  else do
    let found ← read fun s => readHandle s identity.invocationId
    let handle ← orRaiseError found
    sealFor H children e identity receipt lease handle

/-- The arguments of `finish_owned` and `finish_child`. -/
structure FinishCall where
  executor : Executor
  identity : EffectIdentity
  /-- The owner of the intent, for `finish_owned`. -/
  owner : String
  /-- The request and the child, for `finish_child`. -/
  requestDigest : String
  childId : String
  lease : Option ExecutionLease
  outcome : EffectJournal.Outcome

/-- Seal and commit the outcome of a pending intent. -/
def FinishCall.resolveOwned (c : FinishCall) (lease : ExecutionLease) (recorded : EffectReceipt) :
    AuditTransaction EffectReceipt := do
  let proposed ← orRaiseError (EffectReceipt.make (c.outcome.proposed recorded.toReceiptFields
    (c.outcome.childInvocation.or recorded.childInvocation)))
  sealBusiness H children c.executor c.identity proposed (some lease)
  let s ← read id
  writeJournal (EffectJournal.resolveRow (services H children s) c.identity c.owner proposed)
  let completed ← getReceipt H children c.identity
  raiseIf (completed ≠ some proposed)
    (.plain .workflowExecutionError "action outcome was not atomically retained")
  guarded lease "action completion ownership expired"
  pure proposed

/-- An intent that is no longer pending is answered as it is. -/
def FinishCall.ifPending {α : Type} (recorded : EffectReceipt) (settled : α)
    (resolve : AuditTransaction α) : AuditTransaction α :=
  if recorded.status ≠ .pending then pure settled else resolve

/-- The body of the transaction of `finish_owned`. -/
def FinishCall.storeOwned (c : FinishCall) (lease : ExecutionLease) :
    AuditTransaction EffectReceipt := do
  let found ← getReceipt H children c.identity
  let recorded ← orRaise found
    (.plain .workflowExecutionError "action completion does not own the original intent")
  raiseIf (recorded.owner ≠ c.owner)
    (.plain .workflowExecutionError "action completion does not own the original intent")
  FinishCall.ifPending recorded recorded (c.resolveOwned H children lease recorded)

/-- `finish_owned`. -/
def FinishCall.owned (c : FinishCall) : AuditTransaction EffectReceipt := do
  let lease ← orRaise c.lease
    (conflict "action completion requires current execution ownership")
  mapError EffectJournal.ownedError
    (ownedBy c.identity (some lease) (c.storeOwned H children lease))

/-- Capture the child's outcome, seal it and commit it. -/
def FinishCall.resolveChild (c : FinishCall) (lease : ExecutionLease) (recorded : EffectReceipt) :
    AuditTransaction (Option EffectReceipt) := do
  let captured ← read fun s => children.capture s.journal c.childId
  let dependency ← orRaiseError captured
  let verified ← read fun s => children.verify s.journal dependency c.identity c.requestDigest
  raiseIf (verified = false)
    (.plain .workflowExecutionError "child invocation dependency is inconsistent")
  let binding ← read fun s => s.journal.childBindings.lookup (H.key c.identity)
  raiseIf (binding ≠ some c.childId)
    (.plain .workflowExecutionError "child reconciliation binding differs")
  let proposed ← orRaiseError (EffectReceipt.make
    (EffectJournal.proposedChild recorded.toReceiptFields c.outcome dependency))
  sealBusiness H children c.executor c.identity proposed (some lease)
  let s ← read id
  writeJournal
    (EffectJournal.resolveRow (services H children s) c.identity recorded.owner proposed)
  pure none

/-- The body of the transaction of `finish_child`. -/
def FinishCall.storeChild (c : FinishCall) (lease : ExecutionLease) :
    AuditTransaction (Option EffectReceipt) := do
  let found ← getReceipt H children c.identity
  let recorded ← orRaise found
    (.plain .workflowExecutionError "recorded child workflow request differs")
  raiseIf (recorded.requestDigest ≠ c.requestDigest)
    (.plain .workflowExecutionError "recorded child workflow request differs")
  FinishCall.ifPending recorded (some recorded) (c.resolveChild H children lease recorded)

/-- The transaction of `finish_child`; it answers a receipt that was settled before. -/
def FinishCall.child (c : FinishCall) : AuditTransaction (Option EffectReceipt) := do
  raiseIf (c.identity.operation ≠ "run:workflow")
    (conflict "child reconciliation requires parent authority")
  let lease ← orRaise c.lease (conflict "child reconciliation requires parent authority")
  ownedBy c.identity (some lease) (c.storeChild H children lease)

/-- A new outcome is read back. -/
def FinishCall.answerChild (c : FinishCall) : Option EffectReceipt → Run EffectReceipt
  | some recorded => pure recorded
  | none => do
    let found ← Procedure.transaction (getReceipt H children c.identity)
    let completed ← orRaise found
      (.plain .workflowExecutionError "child outcome reconciliation was not recorded")
    raiseIf (completed.status = .pending)
      (.plain .workflowExecutionError "child outcome reconciliation was not recorded")
    pure completed

/-- `finish_child`. -/
def FinishCall.runChild (c : FinishCall) : Run EffectReceipt := do
  let settled ← Procedure.transaction (c.child H children)
  c.answerChild H children settled

/-! ## The calls -/

/-- What executors do to the effects of invocations. -/
inductive Call where
  | authorize (call : AuthorizeCall)
  | beginEffect (call : BeginCall)
  | finishOwned (call : FinishCall)
  | finishChild (call : FinishCall)

inductive Answer where
  | decision (decision : Option AuthorizationDecision)
  | receipt (receipt : EffectReceipt)

def body : Call → Run Answer
  | .authorize c => do
    let decision ← c.run H children
    pure (.decision decision)
  | .beginEffect c => do
    let receipt ← c.run H children
    pure (.receipt receipt)
  | .finishOwned c => do
    let receipt ← Procedure.transaction (c.owned H children)
    pure (.receipt receipt)
  | .finishChild c => do
    let receipt ← c.runChild H children
    pure (.receipt receipt)

end Authorizations
