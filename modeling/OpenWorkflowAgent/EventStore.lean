/-
# The event store

`event_store.py`: the durable inbox, the outbox of publications, and the subscriptions of listeners.

An event is admitted to the inbox of its scope under the next sequence number, once for its source
and id.  A publication is committed to the outbox together with its receipt and reserves the inbox
space it will need.  A listener registers a strategy, scans the arrivals behind its cursor in
batches and records every decision as a receipt of the journal; `readRow` and `readState` recompute
these records from the receipts and raise where they differ.  `prune` removes expired arrivals that
nothing refers to.

Every operation is one transaction, serialised on the arrival counter and under the execution lease
when it is given one.  A text that JSON was written to is the tree it was written from; two texts
are equal when the canonical trees are.  What the approval tables answer is `ApprovalEvidence`.

The fields `arrivals` and `logs` are auxiliary: the log of all admitted arrivals, and of each
listener the arrivals it evaluated in committed scans.
-/
import OpenWorkflowAgent.EventMatching

open Transaction

/-! ## Rows -/

/-- A row of `event_inbox`. -/
structure InboxRow where
  sequence : ℕ
  scope : String
  source : String
  eventId : String
  envelope : Json
  digest : String
  submittedDigest : String
  createdAt : ℚ
  bytes : ℕ
  deriving DecidableEq

/-- A row of `event_outbox`. -/
structure OutboxRow where
  identity : String
  invocationId : String
  fingerprint : String
  scope : String
  envelope : Json
  digest : String
  requestDigest : String
  delivered : Bool
  createdAt : ℚ
  bytes : ℕ
  deriving DecidableEq

inductive SubscriptionStatus where
  | pending
  | completed
  | closed
  deriving DecidableEq, Repr

def SubscriptionStatus.text : SubscriptionStatus → String
  | .pending => "pending"
  | .completed => "completed"
  | .closed => "closed"

structure SubscriptionPayload extends MatchProgress where
  identity : EffectIdentity
  requestDigest : String
  scope : String
  strategy : Strategy
  cursor : ℕ
  initialCursor : ℕ
  selectionCount : ℕ
  decisionCount : ℕ
  deriving DecidableEq

/-- A row of `event_subscriptions`, without its key. -/
structure SubscriptionRow where
  invocationId : String
  fingerprint : String
  payload : SubscriptionPayload
  status : SubscriptionStatus
  createdAt : ℚ
  deriving DecidableEq

/-- A row of `event_selections`. -/
structure SelectionRow where
  subscription : String
  ordinal : ℕ
  sequence : ℕ
  digest : String
  receiptIdentity : String
  deriving DecidableEq

/-- A row of `event_invocation_profiles`, without its key. -/
structure EventProfileRow where
  fingerprint : String
  scope : String
  profile : String
  digest : String
  deriving DecidableEq

/-- A row of `event_consumer_pins`, without its key. -/
structure ConsumerPin where
  scope : String
  cursor : ℕ
  active : Bool
  deriving DecidableEq

/-- A row of `event_consumer_selections`. -/
structure ConsumerSelection where
  consumerKey : String
  sequence : ℕ
  digest : String
  deriving DecidableEq

/-- What the approval tables say about approval events. -/
structure ApprovalEvidence where
  /-- `verify_protected_approval_event`. -/
  verify : EventEnvelope → String → Except OwaError Unit
  /-- `protected_approval_event_retained`. -/
  retained : EventEnvelope → Bool

/-- What a listener has scanned. -/
structure ListenerLog where
  /-- The arrivals it evaluated in committed scans, in this order. -/
  scanned : List InboxRow
  /-- The arrivals that had been removed when it registered. -/
  removed : List InboxRow

/-- The tables. -/
structure EventStore where
  journal : JournalStore
  /-- `event_counters`. -/
  counter : ℕ
  inbox : List InboxRow
  outbox : List OutboxRow
  subscriptions : Table String SubscriptionRow
  selections : List SelectionRow
  /-- `event_consumers`: the watermark of an invocation. -/
  consumers : Table String ℕ
  profiles : Table String EventProfileRow
  pins : Table String ConsumerPin
  consumerSelections : List ConsumerSelection
  approvals : ApprovalEvidence
  /-- Auxiliary: every arrival ever admitted. -/
  arrivals : List InboxRow
  /-- Auxiliary: what each listener has scanned. -/
  logs : Table String ListenerLog

/-! ## Texts -/

/-- `_json`: the tree that the text of a valid value stands for. -/
def jsonText (v : Json) : Except OwaError Json :=
  if v.valid then .ok v.canonical else .error invalidExpressionData

def SubscriptionPayload.value (p : SubscriptionPayload) : Json :=
  .obj [("profile", .str "owa/events/v1"), ("identity", p.identity.value),
    ("request_digest", .str p.requestDigest), ("scope", .str p.scope),
    ("strategy", p.strategy.value), ("cursor", .int p.cursor),
    ("initial_cursor", .int p.initialCursor), ("correlations", .obj p.correlations),
    ("matched_filters", .arr (p.matchedFilters.map fun n => .int n)),
    ("progress", .obj p.progress), ("selection_count", .int p.selectionCount),
    ("decision_count", .int p.decisionCount)]

/-- `_routing_value`. -/
def SubscriptionPayload.routingValue (p : SubscriptionPayload) (status : SubscriptionStatus) :
    Json :=
  .obj [("profile", .str "owa/events/progress/v1"), ("status", .str status.text),
    ("cursor", .int p.cursor), ("correlations", .obj p.correlations),
    ("matched_filters", .arr (p.matchedFilters.map fun n => .int n)),
    ("progress", .obj p.progress), ("selection_count", .int p.selectionCount),
    ("decision_count", .int p.decisionCount)]

/-- The output of a registration receipt. -/
def SubscriptionPayload.registrationValue (p : SubscriptionPayload) : Json :=
  .obj [("profile", .str "owa/events/v1"), ("identity", p.identity.value),
    ("scope", .str p.scope), ("strategy", p.strategy.value),
    ("initial_cursor", .int p.initialCursor)]

/-- The value whose size `select` bounds. -/
def MatchProgress.routingState (p : MatchProgress) : Json :=
  .obj [("correlations", .obj p.correlations), ("progress", .obj p.progress)]

/-- The list that a completed listener answers. -/
def outputsOf (events : List EventEnvelope) : Json := .arr (events.map EventEnvelope.value)

def SubscriptionPayload.registration (p : SubscriptionPayload) : EventRegistration :=
  ⟨p.identity, p.requestDigest, p.scope⟩

namespace EventStore

variable (codec : EventCodec) (limits : EventStoreLimits)

/-- An error of the store itself. -/
def refuse (message : String) : OwaError := .plain .workflowExecutionError message

/-- An error of the submitted event. -/
def reject (message : String) : OwaError := .plain .eventValidationError message

/-! ## Envelopes -/

/-- `_scope`. -/
def checkScope (scope : String) : Except OwaError Unit :=
  raiseIf (scope = "" ∨ 1024 < scope.utf8ByteSize) (reject "event delivery scope is invalid")

/-- The checks of `_envelope`. -/
def makeChecked (p : Properties) (defaultSource : String) (m : Moment) :
    Except OwaError EventEnvelope := do
  raiseIf ((Json.obj p).valid = false) invalidExpressionData
  let envelope ← makeEnvelope p defaultSource m
  let text ← jsonText envelope.value
  raiseIf (limits.maxEventBytes < codec.bytes text)
    (.plain .valueError "event exceeds the configured size limit")
  raiseIf (envelope.id = "" ∨ envelope.source = "" ∨ 1024 < envelope.id.length)
    (.plain .valueError "event identity is invalid")
  return envelope

/-- `_envelope`. -/
def acceptEnvelope (p : Properties) (defaultSource : String) (m : Moment) :
    Except OwaError EventEnvelope :=
  match makeChecked codec limits p defaultSource m with
  | .ok envelope => .ok envelope
  | .error _ => .error (reject "event envelope is invalid or exceeds configured bounds")

/-- The moment a stored envelope is read at: what it would bring fails the comparison. -/
def readingMoment : Moment := ⟨"now", "uuid4", 0⟩

/-- The checks of `_decode_envelope`. -/
def decodeChecked (encoded : Json) (digest : String) : Except OwaError EventEnvelope :=
  match encoded with
  | .obj fields => do
    let text ← jsonText encoded
    raiseIf (codec.hash text ≠ digest) (.plain .valueError "event digest mismatch")
    let envelope ← makeEnvelope fields "" readingMoment
    let canonical ← jsonText envelope.value
    raiseIf (canonical ≠ text) (.plain .valueError "event canonical shape mismatch")
    return envelope
  | _ => .error (.plain .valueError "event digest mismatch")

/-- `_decode_envelope`. -/
def decodeEnvelope (encoded : Json) (digest : String) : Except OwaError EventEnvelope :=
  match decodeChecked codec encoded digest with
  | .ok envelope => .ok envelope
  | .error _ => .error (refuse "durable event evidence is unavailable or inconsistent")

/-- `_decode_envelope` of a stored text, which `json.loads` reads first. -/
def decodeText (loads : String → Except OwaError Json) (encoded digest : String) :
    Except OwaError EventEnvelope :=
  match loads encoded with
  | .ok value => decodeEnvelope codec value digest
  | .error _ => .error (refuse "durable event evidence is unavailable or inconsistent")

def approvalTypes : List String :=
  ["io.openworkflow.agent.approval.requested", "io.openworkflow.agent.approval.decided"]

/-- `_verify_approval_event`. -/
def verifyApprovalEvent (s : EventStore) (e : EventEnvelope) (scope : String) :
    Except OwaError Unit :=
  if e.type ∈ approvalTypes then s.approvals.verify e scope else .ok ()

/-- `protected_approval_event_retained`. -/
def approvalRetained (s : EventStore) (e : EventEnvelope) : Bool :=
  e.type ∈ approvalTypes && s.approvals.retained e

/-! ## Transactions -/

def highest (s : EventStore) : ℕ := (s.inbox.map InboxRow.sequence).foldr max 0

/-- `_serialize`. -/
def serialize : Transaction OwaError EventStore Unit := do
  let consistent ← read fun s => decide (s.highest ≤ s.counter)
  raiseIf (consistent = false) (refuse "durable event arrival counter is inconsistent")

/-- An exception outside the error contract. -/
def isForeign : ErrorKind → Bool
  | .valueError | .keyError | .otherException | .storageError => true
  | _ => false

/-- The `except` clauses of the transactions. -/
def hideError (e : OwaError) : OwaError :=
  if isForeign e.kind then refuse "durable event transaction could not be stored" else e

/-- `transaction`. -/
def transaction {α : Type} (body : Transaction OwaError EventStore α) :
    Transaction OwaError EventStore α :=
  mapError hideError do
    serialize
    body

/-- `_owned`. -/
def owned {α : Type} (identity : EffectIdentity) (lease : Option ExecutionLease)
    (body : Transaction OwaError EventStore α) : Transaction OwaError EventStore α :=
  mapError hideError (Ownership.ownedWriteTransaction (fun s => s.journal.runtime.owners) lease
    identity.invocationId identity.workflowFingerprint do
      serialize
      body)

/-- The journal of the store. -/
def services : JournalServices := { JournalServices.permissive with key := codec.key }

def onJournal {α : Type} (t : Transaction OwaError JournalStore α) :
    Transaction OwaError EventStore α :=
  t.zoom EventStore.journal fun j s => { s with journal := j }

/-- `journal.get`. -/
def readReceipt (identity : EffectIdentity) (s : EventStore) :
    Except OwaError (Option EffectReceipt) :=
  EffectJournal.readReceipt (services codec) identity s.journal

def receiptFields (digest : String) (output : Json) (operationId : Option String) :
    ReceiptFields :=
  ⟨digest, "event", .completed, output, none, none, operationId, none, none⟩

/-- `insert_completed_receipt` of a receipt of the store. -/
def insertReceipt (identity : EffectIdentity) (digest : String) (output : Json)
    (operationId : Option String) : Transaction OwaError EventStore EffectReceipt := do
  let receipt ← orRaiseError (EffectReceipt.make (receiptFields digest output operationId))
  onJournal (EffectJournal.insertCompletedReceipt (services codec) identity receipt)
  return receipt

/-- `_invocation_terminal`. -/
def invocationTerminal (invocationId : String) : Transaction OwaError EventStore Bool := do
  let handle ← onJournal (Transaction.zoom JournalStore.runtime
    (fun r j => { j with runtime := r }) (Invocations.getInvocation invocationId))
  return handle.any fun h => h.record.status.terminal

/-! ## Profiles -/

def profileValue (invocationId fingerprint scope : String) : Json :=
  .arr [.str "owa/events/v1", .str invocationId, .str fingerprint, .str scope]

/-- `_verify_profile`. -/
def verifyProfile (invocationId fingerprint : String) (scope : Option String)
    (row : Option EventProfileRow) : Except OwaError Unit :=
  raiseIf (¬ row.any fun r => r.fingerprint = fingerprint ∧ r.profile = "owa/events/v1" ∧
      scope.all (· = r.scope) ∧
      r.digest = codec.digest (profileValue invocationId fingerprint r.scope))
    (refuse "durable event invocation profile is unavailable or incompatible")

/-- `bind_invocation`. -/
def bindInvocation (identity : EffectIdentity) (scope : String) (lease : Option ExecutionLease) :
    Transaction OwaError EventStore Unit := do
  orRaiseError (checkScope scope)
  owned identity lease do
    write fun s => { s with
      profiles := s.profiles.insertNew identity.invocationId
        ⟨identity.workflowFingerprint, scope, "owa/events/v1",
          codec.digest (profileValue identity.invocationId identity.workflowFingerprint scope)⟩ }
    let row ← read fun s => s.profiles.lookup identity.invocationId
    orRaiseError (verifyProfile codec identity.invocationId identity.workflowFingerprint
      (some scope) row)

/-- `_bound_scope`. -/
def boundScope (identity : EffectIdentity) (scope : String) (s : EventStore) :
    Except OwaError Unit :=
  match s.profiles.lookup identity.invocationId with
  | none => .ok ()
  | some row =>
    verifyProfile codec identity.invocationId identity.workflowFingerprint (some scope) (some row)

/-! ## Admission -/

/-- Scope, source and id. -/
abbrev EventKey := String × String × String

def inboxRow? (s : EventStore) (key : EventKey) : Option InboxRow :=
  s.inbox.find? fun row => row.scope = key.1 ∧ row.source = key.2.1 ∧ row.eventId = key.2.2

/-- The reservations of `_capacity`: the sizes of the undelivered publications whose event is not in
the inbox, the last one of each key. -/
def reservations (s : EventStore) : List OutboxRow → Except OwaError (List (EventKey × ℕ))
  | [] => .ok []
  | row :: rest =>
    if row.delivered then reservations s rest
    else do
      let saved ← decodeEnvelope codec row.envelope row.digest
      let reserved ← reservations s rest
      let key := (row.scope, saved.source, saved.id)
      return if (s.inboxRow? key).isSome ∨ reserved.any (fun r => r.1 = key) then reserved
        else (key, row.bytes) :: reserved

/-- The reserved size of a key, none for a key that is not reserved. -/
def reservedSize (reserved : List (EventKey × ℕ)) (key : EventKey) : Option ℕ :=
  (reserved.find? fun r => r.1 = key).map Prod.snd

def totalCount (s : EventStore) (reserved : List (EventKey × ℕ)) : ℕ :=
  s.inbox.length + reserved.length

def totalBytes (s : EventStore) (reserved : List (EventKey × ℕ)) : ℕ :=
  (s.inbox.map InboxRow.bytes).sum + (s.outbox.map OutboxRow.bytes).sum +
    (reserved.map Prod.snd).sum

def exhausted : OwaError := reject "durable event storage capacity is exhausted"

def checkTotals (count bytes : ℕ) : Except OwaError Unit :=
  raiseIf (limits.maxRetainedEvents < count ∨ limits.maxRetainedBytes < bytes) exhausted

/-- `_capacity` of an arrival: it takes the place of its reservation. -/
def arrivalCapacity (e : EventEnvelope) (scope : String) (s : EventStore) :
    Except OwaError Unit := do
  let reserved ← reservations codec s s.outbox
  let text ← jsonText e.value
  let held := reservedSize reserved (scope, e.source, e.id)
  checkTotals limits (s.totalCount reserved + if held.isSome then 0 else 1)
    (s.totalBytes reserved + codec.bytes text - held.getD 0)

/-- `_capacity` of a publication: it takes its own space and reserves that of its arrival. -/
def publicationCapacity (e : EventEnvelope) (scope : String) (s : EventStore) :
    Except OwaError Unit := do
  let reserved ← reservations codec s s.outbox
  let text ← jsonText e.value
  let key := (scope, e.source, e.id)
  let size := codec.bytes text
  let fresh := (s.inboxRow? key).isNone && (reservedSize reserved key).isNone
  raiseIf (limits.maxOutbox ≤ s.outbox.length) exhausted
  checkTotals limits (s.totalCount reserved + if fresh then 1 else 0)
    (s.totalBytes reserved + size + if fresh then size else 0)

/-- The first publication of the key among rows of a scope. -/
def publishedEnvelope (scope source id : String) :
    List OutboxRow → Except OwaError (Option EventEnvelope)
  | [] => .ok none
  | row :: rest =>
    if row.scope = scope then do
      let saved ← decodeEnvelope codec row.envelope row.digest
      if saved.source = source ∧ saved.id = id then pure (some saved)
      else publishedEnvelope scope source id rest
    else publishedEnvelope scope source id rest

/-- `_known_envelope`. -/
def knownEnvelope (scope : String) (e : EventEnvelope) (s : EventStore) :
    Except OwaError (Option EventEnvelope) :=
  match s.inboxRow? (scope, e.source, e.id) with
  | some row => do
    let saved ← decodeEnvelope codec row.envelope row.digest
    return some saved
  | none => publishedEnvelope codec scope e.source e.id s.outbox

/-- The error of a submission that differs from what its identity is bound to. -/
def differentContent : OwaError :=
  reject "event identity is already bound to different content"

/-- What a submission is compared by: without the time if the map has none. -/
def comparedBy (p : Properties) (e : EventEnvelope) : Json :=
  .obj (if p.has "time" then e.asDict else e.asDict.filter fun f => f.1 ≠ "time")

/-- The submission against the envelope its identity is bound to. -/
def agreeWithSaved (p : Properties) (proposed : EventEnvelope) :
    Option EventEnvelope → Except OwaError EventEnvelope
  | none => .ok proposed
  | some saved => do
    let incoming ← jsonText (comparedBy p proposed)
    let recorded ← jsonText (comparedBy p saved)
    raiseIf (incoming ≠ recorded) differentContent
    return saved

/-- `_canonical_submission`. -/
def canonicalSubmission (p : Properties) (defaultSource scope : String) (m : Moment)
    (s : EventStore) : Except OwaError EventEnvelope := do
  let proposed ← acceptEnvelope codec limits p defaultSource m
  let saved ← knownEnvelope codec scope proposed s
  agreeWithSaved p proposed saved

/-- The value whose digest identifies a submission. -/
def submittedValue (p : Properties) (e : EventEnvelope) : Json :=
  .obj ((p.set "id" (.str e.id)).set "source" (.str e.source))

/-- A submission of an event that is in the inbox. -/
def repeated (row : InboxRow) (submittedDigest : String) (proposed : EventEnvelope) :
    Except OwaError EventEnvelope := do
  let envelope ← decodeEnvelope codec row.envelope row.digest
  let stored ← jsonText envelope.value
  let text ← jsonText proposed.value
  raiseIf (row.submittedDigest ≠ submittedDigest ∧ stored ≠ text) differentContent
  return envelope

def arrivalRow (s : EventStore) (e : EventEnvelope) (scope submittedDigest : String)
    (createdAt : ℚ) : InboxRow :=
  ⟨s.counter + 1, scope, e.source, e.id, e.value, codec.digest e.value, submittedDigest,
    createdAt, codec.size e.value⟩

def storeArrival (row : InboxRow) (s : EventStore) : EventStore :=
  { s with counter := s.counter + 1, inbox := s.inbox ++ [row], arrivals := s.arrivals ++ [row] }

def admitNew (e : EventEnvelope) (scope submittedDigest : String) (m : Moment) :
    Transaction OwaError EventStore EventEnvelope := do
  ask (arrivalCapacity codec limits e scope)
  let row ← read fun s => s.arrivalRow codec e scope submittedDigest m.clock
  write (storeArrival row)
  return e

/-- A submission that `_canonical_submission` accepts is in the inbox, or is admitted. -/
def admitOrRepeat (e : EventEnvelope) (scope submittedDigest : String) (m : Moment) :
    Option InboxRow → Transaction OwaError EventStore EventEnvelope
  | some row => orRaiseError (repeated codec row submittedDigest e)
  | none => admitNew codec limits e scope submittedDigest m

/-- `ingest_in_transaction`. -/
def ingestInTransaction (p : Properties) (defaultSource scope : String) (m : Moment) :
    Transaction OwaError EventStore EventEnvelope := do
  orRaiseError (checkScope scope)
  let proposed ← ask (canonicalSubmission codec limits p defaultSource scope m)
  let submitted ← orRaiseError (jsonText (submittedValue p proposed))
  let row ← read fun s => s.inboxRow? (scope, proposed.source, proposed.id)
  admitOrRepeat codec limits proposed scope (codec.hash submitted) m row

/-- `ingest`. -/
def ingest (p : Properties) (defaultSource scope : String) (m : Moment) :
    Transaction OwaError EventStore EventEnvelope :=
  transaction (ingestInTransaction codec limits p defaultSource scope m)

/-! ## Publication -/

/-- The arrival of a delivered publication has its digest. -/
def deliveredEvidence (s : EventStore) (row : OutboxRow) (e : EventEnvelope) : Bool :=
  row.delivered = false ∨
    (s.inboxRow? (row.scope, e.source, e.id)).any fun r => r.digest = row.digest

/-- The checks of `_verify_outbox` on a row. -/
def verifyOutboxRow (s : EventStore) (identity : EffectIdentity) (receipt : EffectReceipt)
    (row : OutboxRow) : Except OwaError Unit := do
  raiseIf (row.invocationId ≠ identity.invocationId ∨
      row.fingerprint ≠ identity.workflowFingerprint ∨ row.requestDigest ≠ receipt.requestDigest)
    (refuse "durable publication evidence is unavailable or inconsistent")
  let envelope ← decodeEnvelope codec row.envelope row.digest
  verifyApprovalEvent s envelope row.scope
  let text ← jsonText receipt.output
  raiseIf (text ≠ envelope.value.canonical)
    (refuse "durable publication receipt differs from its envelope")
  raiseIf (deliveredEvidence s row envelope = false)
    (refuse "delivered publication evidence is unavailable")

/-- `_verify_outbox`. -/
def verifyOutbox (identity : EffectIdentity) (receipt : EffectReceipt) (s : EventStore) :
    Except OwaError Unit :=
  match s.outbox.find? fun row => row.identity = codec.key identity with
  | none => .error (refuse "durable publication evidence is unavailable or inconsistent")
  | some row => verifyOutboxRow codec s identity receipt row

def storePublication (row : OutboxRow) (s : EventStore) : EventStore :=
  { s with outbox := s.outbox ++ [row] }

def publicationRow (identity : EffectIdentity) (requestDigest scope : String) (e : EventEnvelope)
    (m : Moment) : OutboxRow :=
  ⟨codec.key identity, identity.invocationId, identity.workflowFingerprint, scope, e.value,
    codec.digest e.value, requestDigest, false, m.clock, codec.size e.value⟩

/-- Publish an event for the first time. -/
def publishNew (identity : EffectIdentity) (requestDigest : String) (p : Properties)
    (defaultSource scope : String) (operationId : Option String) (m : Moment) :
    Transaction OwaError EventStore EffectReceipt := do
  let terminal ← invocationTerminal identity.invocationId
  raiseIf (terminal = true)
    (.plain .invocationStateConflict "terminal invocation cannot publish a new event")
  let e ← ask (canonicalSubmission codec limits p defaultSource scope m)
  ask (publicationCapacity codec limits e scope)
  let taken ← read fun s => s.outbox.any fun row => row.identity = codec.key identity
  raiseIf (taken = true) (.plain .storageError "duplicate publication")
  write (storePublication (publicationRow codec identity requestDigest scope e m))
  insertReceipt codec identity requestDigest e.value operationId

/-- A publication that has a receipt answers it. -/
def publishOrRepeat (identity : EffectIdentity) (requestDigest : String) (p : Properties)
    (defaultSource scope : String) (operationId : Option String) (m : Moment) :
    Option EffectReceipt → Transaction OwaError EventStore EffectReceipt
  | some existing => do
    raiseIf (existing.status ≠ .completed ∨ existing.requestDigest ≠ requestDigest)
      (refuse "durable publication request is inconsistent")
    ask (verifyOutbox codec identity existing)
    return existing
  | none => publishNew codec limits identity requestDigest p defaultSource scope operationId m

/-- `publish_effect`. -/
def publishEffect (identity : EffectIdentity) (requestDigest : String) (p : Properties)
    (defaultSource scope : String) (lease : Option ExecutionLease) (operationId : Option String)
    (m : Moment) : Transaction OwaError EventStore EffectReceipt := do
  raiseIf (identity.operation ≠ "emit") (refuse "event publication requires an emit identity")
  orRaiseError (checkScope scope)
  owned identity lease do
    ask (boundScope codec identity scope)
    let existing ← ask (readReceipt codec identity)
    publishOrRepeat codec limits identity requestDigest p defaultSource scope operationId m existing

/-- The order of delivery. -/
def deliveredBefore (a b : OutboxRow) : Bool :=
  a.createdAt < b.createdAt ∨ (a.createdAt = b.createdAt ∧ a.identity ≤ b.identity)

/-- The next publications to deliver. -/
def undelivered (limit : ℕ) (s : EventStore) : List OutboxRow :=
  ((s.outbox.filter fun row => !row.delivered).insertionSort
    fun a b => deliveredBefore a b = true).take limit

/-- `UPDATE event_outbox SET delivered = 1`. -/
def markDelivered (identity : String) (s : EventStore) : EventStore :=
  { s with outbox := s.outbox.map fun row =>
      if row.identity = identity then { row with delivered := true } else row }

def deliverRow (m : Moment) (row : OutboxRow) : Transaction OwaError EventStore Unit := do
  let e ← orRaiseError (decodeEnvelope codec row.envelope row.digest)
  let _ ← ingestInTransaction codec limits e.asDict e.source row.scope m
  write (markDelivered row.identity)

def deliverRows (m : Moment) : List OutboxRow → Transaction OwaError EventStore Unit
  | [] => pure ()
  | row :: rest => do
    deliverRow codec limits m row
    deliverRows m rest

/-- `deliver_outbox`. -/
def deliverOutbox (limit : ℕ) (m : Moment) : Transaction OwaError EventStore ℕ := do
  raiseIf (limit < 1 ∨ limits.scanBatch < limit)
    (.plain .valueError "outbox delivery batch is invalid")
  transaction do
    let rows ← read (undelivered limit)
    deliverRows codec limits m rows
    return rows.length

/-! ## Registration -/

def listenRequest (strategy : Strategy) (scope : String) : Json :=
  .obj [("strategy", strategy.value), ("scope", .str scope)]

/-- The retained subscriptions and consumers. -/
def subscriberCount (s : EventStore) : ℕ := s.subscriptions.rows.length + s.pins.rows.length

/-- `_decision_digest` of the ordinal `k + 1`. -/
def decisionDigest (r : EventRegistration) (k : ℕ) : Except OwaError String :=
  effectRequestDigest codec.request "listen:progress:v1"
    (.obj [("subscription", .str r.requestDigest), ("ordinal", .int (k + 1 : ℕ))])

/-- `_selection_digest` of the ordinal `k + 1`. -/
def selectionDigest (r : EventRegistration) (k sequence : ℕ) (digest : String) :
    Except OwaError String :=
  effectRequestDigest codec.request "listen:event:v1"
    (.obj [("subscription", .str r.requestDigest), ("ordinal", .int (k + 1 : ℕ)),
      ("sequence", .int sequence), ("event_digest", .str digest)])

/-- The receipt of a kind is completed, has the digest and an output with the same text. -/
def hasReceipt (found : Option EffectReceipt) (digest : String) (output : Json) : Bool :=
  found.any fun r => r.status = .completed ∧ r.requestDigest = digest ∧
    r.output.canonical = output.canonical

/-- The routing state stands in the last decision receipt; before the first one it is as
registered. -/
def verifyDecision (s : EventStore) (r : EventRegistration) (p : SubscriptionPayload)
    (status : SubscriptionStatus) : Except OwaError Unit :=
  match p.decisionCount with
  | 0 => raiseIf (status ≠ .pending ∨ p.cursor ≠ p.initialCursor ∨ p.selectionCount ≠ 0 ∨
      p.toMatchProgress ≠ ⟨[], [], []⟩)
      (.plain .valueError "event routing changed without a decision receipt")
  | k + 1 => do
    let found ← readReceipt codec (r.decisionIdentity k) s
    let digest ← decisionDigest codec r k
    raiseIf (hasReceipt found digest (p.routingValue status) = false)
      (.plain .valueError "event routing progress receipt mismatch")

/-- The checks of `_row` on a stored row. -/
def verifyRow (s : EventStore) (r : EventRegistration) (row : SubscriptionRow) :
    Except OwaError Unit := do
  let digest ← effectRequestDigest codec.request "listen"
    (listenRequest row.payload.strategy row.payload.scope)
  raiseIf (row.payload.registration ≠ r ∨ row.invocationId ≠ r.identity.invocationId ∨
      row.fingerprint ≠ r.identity.workflowFingerprint ∨ row.payload.requestDigest ≠ digest ∨
      row.payload.cursor < row.payload.initialCursor)
    (.plain .valueError "invalid subscription")
  raiseIf (row.payload.value.valid = false) invalidExpressionData
  let found ← readReceipt codec r.receiptIdentity s
  raiseIf (hasReceipt found r.requestDigest row.payload.registrationValue = false)
    (.plain .valueError "event registration receipt mismatch")
  verifyDecision codec s r row.payload row.status

/-- `_row`. -/
def readRow (r : EventRegistration) (s : EventStore) :
    Except OwaError (SubscriptionPayload × SubscriptionStatus) :=
  match s.subscriptions.lookup (codec.key r.identity) with
  | none => .error (refuse "durable event subscription evidence is unavailable")
  | some row => match verifyRow codec s r row with
    | .ok _ => .ok (row.payload, row.status)
    | .error _ => .error (refuse "durable event subscription evidence is inconsistent")

/-- The selections of a subscription, by their ordinals. -/
def selectionsOf (s : EventStore) (key : String) : List SelectionRow :=
  (s.selections.filter fun row => row.subscription = key).insertionSort
    fun a b => a.ordinal ≤ b.ordinal

def arrival? (s : EventStore) (sequence : ℕ) : Option InboxRow :=
  s.inbox.find? fun row => row.sequence = sequence

/-- One selection against its arrival and its receipt; `k + 1` is the expected ordinal. -/
def readSelection (s : EventStore) (r : EventRegistration) (p : SubscriptionPayload)
    (k previous : ℕ) (row : SelectionRow) : Except OwaError EventEnvelope := do
  let event ← orRaise (s.arrival? row.sequence)
    (refuse "durable selected event evidence is inconsistent")
  raiseIf (row.ordinal ≠ k + 1 ∨ row.sequence ≤ previous ∨ p.cursor < row.sequence ∨
      event.digest ≠ row.digest ∨ event.scope ≠ r.scope)
    (refuse "durable selected event evidence is inconsistent")
  let envelope ← decodeEnvelope codec event.envelope row.digest
  verifyApprovalEvent s envelope r.scope
  let found ← readReceipt codec (r.eventIdentity k) s
  let digest ← selectionDigest codec r k row.sequence row.digest
  raiseIf (row.receiptIdentity ≠ codec.key (r.eventIdentity k) ∨
      hasReceipt found digest envelope.value = false)
    (refuse "durable event selection receipt is inconsistent")
  return envelope

def readSelections (s : EventStore) (r : EventRegistration) (p : SubscriptionPayload) :
    ℕ → ℕ → List SelectionRow → Except OwaError (List EventEnvelope)
  | _, _, [] => .ok []
  | k, previous, row :: rest => do
    let envelope ← readSelection codec s r p k previous row
    let events ← readSelections s r p (k + 1) row.sequence rest
    return envelope :: events

/-- The last receipt of a listener: there is one exactly if it is completed, with its events. -/
def verifyFinal (r : EventRegistration) (status : SubscriptionStatus) (events : List EventEnvelope)
    (final : Option EffectReceipt) : Except OwaError Unit :=
  if status = .completed then
    raiseIf (hasReceipt final r.requestDigest (outputsOf events) = false)
      (refuse "durable listener completion is inconsistent")
  else raiseIf (final ≠ none) (refuse "unfinished durable listener has a terminal receipt")

def lastDecision (r : EventRegistration) (p : SubscriptionPayload) (s : EventStore) :
    Except OwaError (Option EffectReceipt) :=
  match p.decisionCount with
  | 0 => .ok none
  | k + 1 => readReceipt codec (r.decisionIdentity k) s

/-- `state`. -/
def readState (r : EventRegistration) (s : EventStore) : Except OwaError EventProgress := do
  let found ← readRow codec r s
  let rows := s.selectionsOf (codec.key r.identity)
  raiseIf (rows.length ≠ found.1.selectionCount)
    (refuse "durable selected event evidence is unavailable")
  let events ← readSelections codec s r found.1 0 found.1.initialCursor rows
  let final ← readReceipt codec r.identity s
  verifyFinal r found.2 events final
  let decision ← lastDecision codec r found.1 s
  return ⟨found.1.toMatchProgress, r, events, found.1.cursor, found.2 = .completed,
    found.2 = .closed, none, none, final, found.1.decisionCount, decision⟩

def newPayload (r : EventRegistration) (strategy : Strategy) (cursor : ℕ) : SubscriptionPayload :=
  ⟨⟨[], [], []⟩, r.identity, r.requestDigest, r.scope, strategy, cursor, cursor, 0, 0⟩

/-- Store a new subscription; the log notes which arrivals are gone. -/
def storeSubscription (key : String) (row : SubscriptionRow) (s : EventStore) : EventStore :=
  { s with
    subscriptions := s.subscriptions.put key row
    logs := s.logs.put key ⟨[], s.arrivals.filter fun a => a ∉ s.inbox⟩ }

/-- Register a listener for the first time. -/
def registerNew (r : EventRegistration) (strategy : Strategy) (m : Moment) :
    Transaction OwaError EventStore EventRegistration := do
  let terminal ← invocationTerminal r.identity.invocationId
  raiseIf (terminal = true)
    (.plain .invocationStateConflict "terminal invocation cannot create an event subscription")
  let count ← read subscriberCount
  raiseIf (limits.maxSubscriptions ≤ count)
    (reject "durable event subscription capacity is exhausted")
  write fun s => { s with consumers := s.consumers.insertNew r.identity.invocationId 0 }
  let cursor ← read fun s => (s.consumers.lookup r.identity.invocationId).getD 0
  let payload := newPayload r strategy cursor
  raiseIf (payload.value.valid = false) invalidExpressionData
  write (storeSubscription (codec.key r.identity)
    ⟨r.identity.invocationId, r.identity.workflowFingerprint, payload, .pending, m.clock⟩)
  let _ ← insertReceipt codec r.receiptIdentity r.requestDigest payload.registrationValue none
  return r

/-- A listener that is registered is checked. -/
def registerOrRepeat (r : EventRegistration) (strategy : Strategy) (m : Moment) :
    Bool → Transaction OwaError EventStore EventRegistration
  | true => do
    let _ ← ask (readState codec r)
    return r
  | false => registerNew codec limits r strategy m

/-- `register`. -/
def register (identity : EffectIdentity) (strategy : Strategy) (scope : String)
    (lease : Option ExecutionLease) (m : Moment) :
    Transaction OwaError EventStore EventRegistration := do
  raiseIf (identity.operation ≠ "listen")
    (refuse "event subscription requires a listen identity")
  orRaiseError (checkScope scope)
  let text ← orRaiseError (jsonText strategy.value)
  raiseIf (limits.maxEventBytes < codec.bytes text)
    (reject "event subscription exceeds configured bounds")
  let digest ← orRaiseError
    (effectRequestDigest codec.request "listen" (listenRequest strategy scope))
  owned identity lease do
    ask (boundScope codec identity scope)
    let known ← read fun s => (s.subscriptions.lookup (codec.key identity)).isSome
    registerOrRepeat codec limits ⟨identity, digest, scope⟩ strategy m known

/-! ## Selection -/

/-- `UPDATE event_subscriptions SET payload = ?, status = ?`. -/
def updateSubscription (key : String) (p : SubscriptionPayload) (status : SubscriptionStatus)
    (s : EventStore) : EventStore :=
  { s with
    subscriptions := s.subscriptions.updateWhere key (fun _ => true) fun row =>
      { row with payload := p, status := status } }

/-- `_save_progress`. -/
def saveProgress (r : EventRegistration) (p : SubscriptionPayload) (status : SubscriptionStatus) :
    Transaction OwaError EventStore Unit := do
  let next := { p with decisionCount := p.decisionCount + 1 }
  let digest ← orRaiseError (decisionDigest codec r p.decisionCount)
  let _ ← insertReceipt codec (r.decisionIdentity p.decisionCount) digest
    (next.routingValue status) none
  raiseIf (next.value.valid = false) invalidExpressionData
  write (updateSubscription (codec.key r.identity) next status)

/-- The evaluation of a batch: the arrivals without a decision, and the first one with one. -/
structure Scan where
  passed : List InboxRow
  hit : Option (InboxRow × EventEnvelope × EventDecision)

/-- Evaluate the candidates up to the first decision. -/
def scanRows (evaluate : EventEvaluator) (current : EventProgress) :
    List InboxRow → Except OwaError Scan
  | [] => .ok ⟨[], none⟩
  | row :: rest => do
    let envelope ← decodeEnvelope codec row.envelope row.digest
    match ← evaluate envelope current.toMatchProgress with
    | some decision => pure ⟨[], some (row, envelope, decision)⟩
    | none => do
      let scan ← scanRows evaluate current rest
      pure ⟨row :: scan.passed, scan.hit⟩

/-- The arrivals of a scope behind a cursor, in order, at most `limit`. -/
def candidates (scope : String) (cursor limit : ℕ) (s : EventStore) : List InboxRow :=
  ((s.inbox.filter fun row => row.scope = scope ∧ cursor < row.sequence).insertionSort
    fun a b => a.sequence ≤ b.sequence).take limit

/-- A binding that exists keeps its text. -/
def keepsBinding (changed : OwaError) (saved : Option Json) (value : Json) :
    Except OwaError Unit :=
  match saved with
  | none => .ok ()
  | some old => do
    let before ← jsonText old
    let after ← jsonText value
    raiseIf (before ≠ after) changed

/-- The bindings of a decision, added to the saved ones. -/
def mergeBindings (changed : OwaError) : Properties → Properties → Except OwaError Properties
  | saved, [] => .ok saved
  | saved, (name, value) :: rest => do
    keepsBinding changed (saved.value? name) value
    mergeBindings changed (saved.set name value) rest

def changedBinding : OwaError := refuse "durable event correlation changed its binding"

def storeSelection (row : SelectionRow) (s : EventStore) : EventStore :=
  { s with selections := s.selections ++ [row] }

def recordSelection (r : EventRegistration) (p : SubscriptionPayload) (row : InboxRow)
    (e : EventEnvelope) : Transaction OwaError EventStore EffectReceipt := do
  let digest ← orRaiseError (selectionDigest codec r p.selectionCount row.sequence row.digest)
  let receipt ← insertReceipt codec (r.eventIdentity p.selectionCount) digest e.value none
  let key := codec.key r.identity
  let taken ← read fun s => s.selections.any fun x =>
    x.subscription = key ∧ (x.ordinal = p.selectionCount + 1 ∨ x.sequence = row.sequence)
  raiseIf (taken = true) (.plain .storageError "duplicate selection")
  write (storeSelection ⟨key, p.selectionCount + 1, row.sequence, row.digest,
    codec.key (r.eventIdentity p.selectionCount)⟩)
  return receipt

/-- A terminator is not selected. -/
def recordUnlessTerminator (r : EventRegistration) (p : SubscriptionPayload) (row : InboxRow)
    (e : EventEnvelope) (d : EventDecision) :
    Transaction OwaError EventStore (SubscriptionPayload × Option EffectReceipt) :=
  if d.terminator then pure (p, none)
  else do
    let receipt ← recordSelection codec r p row e
    return ({ p with selectionCount := p.selectionCount + 1 }, some receipt)

def raiseWatermark (invocationId : String) (sequence : ℕ) (s : EventStore) : EventStore :=
  { s with consumers := s.consumers.updateWhere invocationId (fun _ => true) (max sequence) }

def recordFinal (r : EventRegistration) (events : List EventEnvelope) (terminal : Bool) :
    Transaction OwaError EventStore Unit :=
  if terminal then do
    let _ ← insertReceipt codec r.identity r.requestDigest (outputsOf events) none
    return ()
  else pure ()

/-- Note what a committed scan evaluated. -/
def noteScanned (key : String) (rows : List InboxRow) (s : EventStore) : EventStore :=
  { s with
    logs := s.logs.updateWhere key (fun _ => true) fun log =>
      { log with scanned := log.scanned ++ rows } }

def selectEvent (r : EventRegistration) (current : EventProgress) (p : SubscriptionPayload)
    (row : InboxRow) (e : EventEnvelope) (d : EventDecision) :
    Transaction OwaError EventStore EventProgress := do
  ask fun s => verifyApprovalEvent s e r.scope
  let correlations ← orRaiseError
    (mergeBindings changedBinding current.correlations d.correlations)
  let routed := { p with
    cursor := row.sequence
    correlations := correlations
    matchedFilters := sortedUnion current.matchedFilters d.filterIndices
    progress := d.progress }
  let text ← orRaiseError (jsonText routed.routingState)
  raiseIf (limits.maxEventBytes < codec.bytes text)
    (reject "event selection state exceeds configured bounds")
  let next ← recordUnlessTerminator codec r routed row e d
  write (raiseWatermark r.identity.invocationId row.sequence)
  saveProgress codec r next.1 (if d.terminal then .completed else .pending)
  recordFinal codec r (current.events ++ if d.terminator then [] else [e]) d.terminal
  let result ← ask (readState codec r)
  return { result with
    selected := if d.terminator then none else some e
    eventReceipt := next.2 }

/-- A batch without a decision moves the cursor; without arrivals nothing is recorded. -/
def passBatch (r : EventRegistration) (current : EventProgress) (p : SubscriptionPayload)
    (passed : List InboxRow) : Transaction OwaError EventStore EventProgress :=
  match passed.getLast? with
  | none => pure current
  | some last => do
    write (noteScanned (codec.key r.identity) passed)
    saveProgress codec r { p with cursor := last.sequence } .pending
    ask (readState codec r)

/-- What the scan of a batch leads to. -/
def settleScan (r : EventRegistration) (current : EventProgress) (p : SubscriptionPayload)
    (scan : Scan) : Transaction OwaError EventStore EventProgress :=
  match scan.hit with
  | some (row, e, d) => do
    write (noteScanned (codec.key r.identity) (scan.passed ++ [row]))
    selectEvent codec limits r current p row e d
  | none => passBatch codec r current p scan.passed

def closeListener (r : EventRegistration) (p : SubscriptionPayload) :
    Transaction OwaError EventStore EventProgress := do
  saveProgress codec r p .closed
  ask (readState codec r)

def scanBatch (evaluate : EventEvaluator) (r : EventRegistration) (current : EventProgress)
    (p : SubscriptionPayload) : Transaction OwaError EventStore EventProgress := do
  let rows ← read (candidates r.scope p.cursor limits.scanBatch)
  let scan ← orRaiseError (scanRows codec evaluate current rows)
  settleScan codec limits r current p scan

/-- A pending listener scans, unless its invocation has ended. -/
def selectPending (evaluate : EventEvaluator) (r : EventRegistration) (current : EventProgress)
    (p : SubscriptionPayload) : Transaction OwaError EventStore EventProgress := do
  let terminal ← invocationTerminal r.identity.invocationId
  if terminal then closeListener codec r p else scanBatch codec limits evaluate r current p

/-- `select`. -/
def select (r : EventRegistration) (evaluate : EventEvaluator) (lease : Option ExecutionLease) :
    Transaction OwaError EventStore EventProgress :=
  owned r.identity lease do
    let found ← ask (readRow codec r)
    let current ← ask (readState codec r)
    if found.2 ≠ .pending then pure current
    else selectPending codec limits evaluate r current found.1

/-! ## Completion and disposal -/

def completePending (r : EventRegistration) (current : EventProgress) (p : SubscriptionPayload) :
    Transaction OwaError EventStore EventProgress := do
  let terminal ← invocationTerminal r.identity.invocationId
  if terminal then closeListener codec r p
  else do
    recordFinal codec r current.events true
    saveProgress codec r p .completed
    ask (readState codec r)

/-- `complete`. -/
def complete (r : EventRegistration) (lease : Option ExecutionLease) :
    Transaction OwaError EventStore EventProgress :=
  owned r.identity lease do
    let found ← ask (readRow codec r)
    let current ← ask (readState codec r)
    if current.closed = true ∨ current.completed = true then pure current
    else completePending codec r current found.1

/-- `abandon`. -/
def abandon (r : EventRegistration) (lease : Option ExecutionLease) :
    Transaction OwaError EventStore Unit :=
  owned r.identity lease do
    let found ← ask (readRow codec r)
    if found.2 = .pending then saveProgress codec r found.1 .closed else pure ()

def closeRows : List SubscriptionPayload → Transaction OwaError EventStore Unit
  | [] => pure ()
  | p :: rest => do
    let found ← ask (readRow codec p.registration)
    saveProgress codec p.registration found.1 .closed
    closeRows rest

/-- `close_invocation`. -/
def closeInvocation (invocationId fingerprint : String) : Transaction OwaError EventStore Unit :=
  transaction do
    let handle ← onJournal (Transaction.zoom JournalStore.runtime
      (fun r j => { j with runtime := r }) (Invocations.getInvocation invocationId))
    raiseIf (¬ handle.any fun h => h.record.identity.workflowFingerprint = fingerprint ∧
        h.record.status.terminal = true)
      (.plain .invocationStateConflict "event disposition requires a terminal invocation")
    let rows ← read fun s => s.subscriptions.selectRows fun _ row =>
      row.invocationId = invocationId ∧ row.fingerprint = fingerprint ∧ row.status = .pending
    closeRows codec (rows.map fun row => row.2.payload)

/-! ## Consumers outside of invocations -/

/-- `EventArrival`. -/
structure Arrival where
  sequence : ℕ
  envelope : EventEnvelope
  digest : String
  deriving DecidableEq

def arrivalsOf : List InboxRow → Except OwaError (List Arrival)
  | [] => .ok []
  | row :: rest => do
    let envelope ← decodeEnvelope codec row.envelope row.digest
    let arrivals ← arrivalsOf rest
    return ⟨row.sequence, envelope, row.digest⟩ :: arrivals

/-- `arrivals_in_transaction`. -/
def arrivalsInTransaction (scope : String) (after limit : ℕ) (s : EventStore) :
    Except OwaError (List Arrival) := do
  checkScope scope
  raiseIf (limit = 0 ∨ limits.scanBatch < limit) (reject "event consumer scan is invalid")
  arrivalsOf codec (candidates scope after limit s)

/-- `consumer_pin_in_transaction`. -/
def readPin (consumerKey : String) (s : EventStore) : Except OwaError (Option ConsumerPin) :=
  match s.pins.lookup consumerKey with
  | none => .ok none
  | some pin => do
    checkScope pin.scope
    return some pin

/-- The pin against the one it replaces. -/
def checkPin (pin : ConsumerPin) (s : EventStore) : Option ConsumerPin → Except OwaError Unit
  | none => raiseIf (limits.maxSubscriptions ≤ s.subscriberCount)
      (reject "durable event subscription capacity is exhausted")
  | some existing => raiseIf (existing.scope ≠ pin.scope ∨ pin.cursor < existing.cursor ∨
      (existing.active = false ∧ pin.active = true))
      (refuse "event consumer retention cursor changed its binding")

def checkSelected (consumerKey : String) (pin : ConsumerPin) (a : Arrival) (s : EventStore) :
    Except OwaError Unit := do
  let row ← orRaise (s.arrival? a.sequence)
    (refuse "event consumer selection evidence disagrees")
  raiseIf (row.scope ≠ pin.scope ∨ row.digest ≠ a.digest)
    (refuse "event consumer selection evidence disagrees")
  let envelope ← decodeEnvelope codec row.envelope row.digest
  let stored ← jsonText envelope.value
  let text ← jsonText a.envelope.value
  raiseIf (stored ≠ text ∨ pin.cursor < a.sequence)
    (refuse "event consumer selection evidence disagrees")
  raiseIf (s.consumerSelections.any fun x =>
      x.consumerKey = consumerKey ∧ x.sequence = a.sequence ∧ x.digest ≠ a.digest)
    (refuse "event consumer selection digest changed")

def retainSelection (consumerKey : String) (a : Arrival) (s : EventStore) : EventStore :=
  if s.consumerSelections.any fun x => x.consumerKey = consumerKey ∧ x.sequence = a.sequence then s
  else { s with
    consumerSelections := s.consumerSelections ++ [⟨consumerKey, a.sequence, a.digest⟩] }

def retainSelections (consumerKey : String) (pin : ConsumerPin) :
    List Arrival → Transaction OwaError EventStore Unit
  | [] => pure ()
  | a :: rest => do
    ask (checkSelected codec consumerKey pin a)
    write (retainSelection consumerKey a)
    retainSelections consumerKey pin rest

/-- `pin_consumer_in_transaction`. -/
def pinConsumer (consumerKey : String) (pin : ConsumerPin) (selected : List Arrival) :
    Transaction OwaError EventStore Unit := do
  orRaiseError (checkScope pin.scope)
  raiseIf (consumerKey = "" ∨ 1024 < consumerKey.utf8ByteSize)
    (reject "event consumer retention pin is invalid")
  let existing ← ask (readPin consumerKey)
  let counter ← read EventStore.counter
  raiseIf (counter < pin.cursor) (refuse "event consumer cursor exceeds admitted arrivals")
  ask fun s => checkPin limits pin s existing
  retainSelections codec consumerKey pin selected
  write fun s => { s with
    pins := s.pins.put consumerKey
      ⟨(existing.map ConsumerPin.scope).getD pin.scope, pin.cursor, pin.active⟩ }

/-- `verify_consumer_selection_in_transaction`. -/
def verifyConsumerSelection (consumerKey scope : String) (sequence : ℕ) (digest : String)
    (s : EventStore) : Except OwaError Arrival := do
  raiseIf (¬ s.consumerSelections.any fun x =>
      x.consumerKey = consumerKey ∧ x.sequence = sequence ∧ x.digest = digest)
    (refuse "event consumer selection evidence is missing or changed")
  let row ← orRaise (s.arrival? sequence)
    (refuse "event consumer selection evidence is missing or changed")
  raiseIf (row.scope ≠ scope ∨ row.digest ≠ digest)
    (refuse "event consumer selection evidence is missing or changed")
  let envelope ← decodeEnvelope codec row.envelope row.digest
  return ⟨sequence, envelope, digest⟩

/-! ## Retention -/

def isSelected (s : EventStore) (row : InboxRow) : Bool :=
  (s.selections.any fun x => x.sequence = row.sequence) ||
    s.consumerSelections.any fun x => x.sequence = row.sequence

/-- The rows a sweep looks at. -/
def expired (cutoff : ℚ) (limit : ℕ) (s : EventStore) : List InboxRow :=
  ((s.inbox.filter fun row => row.createdAt < cutoff ∧ s.isSelected row = false).insertionSort
    fun a b => a.sequence ≤ b.sequence).take limit

/-- A pending listener of the scope has not scanned the row. -/
def heldByListener (s : EventStore) (row : InboxRow) : Bool :=
  (s.subscriptions.rows.filter fun x => x.2.status = .pending).any fun x =>
    x.2.payload.scope = row.scope ∧ x.2.payload.cursor < row.sequence

/-- An active consumer of the scope has not scanned the row. -/
def heldByConsumer (s : EventStore) (row : InboxRow) : Bool :=
  s.pins.rows.any fun x => x.2.scope = row.scope ∧ x.2.active = true ∧ x.2.cursor < row.sequence

/-- A delivered publication of the scope is about the event of the row. -/
def heldByPublication (row : InboxRow) : List OutboxRow → Except OwaError Bool
  | [] => .ok false
  | published :: rest =>
    if published.scope = row.scope ∧ published.delivered = true then do
      let e ← decodeEnvelope codec published.envelope published.digest
      if e.source = row.source ∧ e.id = row.eventId then pure true
      else heldByPublication row rest
    else heldByPublication row rest

/-- The conditions of the loop of `prune`. -/
def isRemovable (row : InboxRow) (s : EventStore) : Except OwaError Bool := do
  let e ← decodeEnvelope codec row.envelope row.digest
  if s.approvalRetained e ∨ s.heldByListener row ∨ s.heldByConsumer row then pure false
  else do
    let held ← heldByPublication codec row s.outbox
    pure !held

/-- `DELETE FROM event_inbox WHERE sequence = ?`. -/
def deleteArrival (sequence : ℕ) (s : EventStore) : EventStore :=
  { s with inbox := s.inbox.filter fun row => row.sequence ≠ sequence }

/-- Delete a row that nothing refers to. -/
def deleteIf (removable : Bool) (sequence : ℕ) : Transaction OwaError EventStore ℕ :=
  if removable then do
    write (deleteArrival sequence)
    return 1
  else pure 0

/-- The loop of `prune`. -/
def pruneRows : List InboxRow → Transaction OwaError EventStore ℕ
  | [] => pure 0
  | row :: rest => do
    let removable ← ask (isRemovable codec row)
    let removed ← deleteIf removable row.sequence
    let more ← pruneRows rest
    return removed + more

/-- `prune`; `now` is the given time, or that of the host. -/
def prune (now : ℚ) (limit : ℕ) : Transaction OwaError EventStore ℕ := do
  raiseIf (limit = 0 ∨ limits.scanBatch < limit)
    (.plain .valueError "event retention sweep is invalid")
  transaction do
    let rows ← read (expired (now - limits.retentionSeconds) limit)
    pruneRows codec rows

end EventStore
