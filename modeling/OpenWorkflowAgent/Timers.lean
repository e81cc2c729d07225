/-
# Durable timers

`timers.py`: a `wait` task arms a timer and gives its execution back.  The arming is
an immutable receipt of the effect journal (`wait:arm:v1`) together with a row of
`workflow_timers`; the wake is a second receipt (`wait:wake:v1`) under the same
place in the workflow.  Dispatchers claim due rows for a time, a manual resume and
the dispatcher race for the wake, the continuation consumes it, and the end of the
invocation cancels what is left.

Every operation is one transaction, serialised on `timer_admission` and under the
execution lease when it is given one.  `readTimer` is `get`: it recomputes every
stored fact of the arming and raises when one differs.  Times are exact rationals.

The field `left` of a row is auxiliary: it records through which operation the
timer left the state `pending`.
-/
import OpenWorkflowAgent.EffectJournal

open Transaction

/-! ## Identities of timers -/

def armOperation : String := "wait:arm:v1"

def wakeOperation : String := "wait:wake:v1"

/-- `replace(identity, operation="wait:wake:v1")`. -/
def EffectIdentity.wake (identity : EffectIdentity) : EffectIdentity :=
  { identity with
    operation := wakeOperation
    named := ⟨identity.named.1, identity.named.2.1, identity.named.2.2.1, by decide⟩ }

/-! ## Values -/

/-- A number, but no boolean. -/
def Json.number? : Json → Option ℚ
  | .int n => some n
  | .float x => some x
  | _ => none

/-- `set(value) == names` for an object. -/
def Json.hasFields (names : List String) : Json → Bool
  | .obj fields => (fields.map Prod.fst).all (· ∈ names) ∧
      names.all (· ∈ fields.map Prod.fst)
  | _ => false

def Json.ofTime : Option ℚ → Json
  | none => .null
  | some x => .float x

/-- What `arm` decides: when the timer was armed, for how long, and when it wakes. -/
structure Arming where
  armedAt : ℚ
  duration : ℚ
  dueAt : ℚ
  fingerprint : String
  deadlineAt : Option ℚ
  wakeAt : ℚ
  deriving DecidableEq

namespace Arming

def fieldNames : List String :=
  ["profile", "armed_at", "duration", "due_at", "workflow_fingerprint", "deadline_at", "wake_at"]

/-- The output of the arming receipt. -/
def json (a : Arming) : Json :=
  .obj [("profile", .str "owa/wait-arm/v1"), ("armed_at", .float a.armedAt),
    ("duration", .float a.duration), ("due_at", .float a.dueAt),
    ("workflow_fingerprint", .str a.fingerprint), ("deadline_at", .ofTime a.deadlineAt),
    ("wake_at", .float a.wakeAt)]

/-- The deadline field: `null`, or a number. -/
def readDeadline (value : Json) : Option (Option ℚ) :=
  match value.field? "deadline_at" with
  | some .null => some none
  | some v => v.number?.map some
  | none => none

def readText (name : String) (value : Json) : Option String :=
  match value.field? name with
  | some (.str text) => some text
  | _ => none

/-- Read an arming back from a stored value with exactly its fields. -/
def ofJson (value : Json) : Option Arming := do
  if value.hasFields fieldNames ∧ value.field? "profile" = some (.str "owa/wait-arm/v1") then
    let armedAt ← (value.field? "armed_at").bind Json.number?
    let duration ← (value.field? "duration").bind Json.number?
    let dueAt ← (value.field? "due_at").bind Json.number?
    let fingerprint ← readText "workflow_fingerprint" value
    let deadlineAt ← readDeadline value
    let wakeAt ← (value.field? "wake_at").bind Json.number?
    return ⟨armedAt, duration, dueAt, fingerprint, deadlineAt, wakeAt⟩
  else none

/-- `min(due_at, deadline_at)`, the due time without a deadline. -/
def earliest (dueAt : ℚ) (deadlineAt : Option ℚ) : ℚ :=
  deadlineAt.elim dueAt (min dueAt)

/-- The checks that `get` makes of the decided times. -/
def Sound (a : Arming) : Prop :=
  0 < a.armedAt ∧ 0 < a.duration ∧ 0 < a.dueAt ∧ a.dueAt = a.armedAt + a.duration ∧
    a.wakeAt = earliest a.dueAt a.deadlineAt ∧ ∀ d ∈ a.deadlineAt, a.armedAt < d

instance (a : Arming) : Decidable a.Sound :=
  inferInstanceAs (Decidable (_ ∧ _))

/-- The value whose digest identifies the request. -/
def request (a : Arming) (source : Json) : Json :=
  .obj [("duration", .float a.duration), ("workflow_fingerprint", .str a.fingerprint),
    ("source", source), ("deadline_at", .ofTime a.deadlineAt)]

@[simp] theorem ofJson_json (a : Arming) : ofJson a.json = some a := by
  obtain ⟨armedAt, duration, dueAt, fingerprint, deadlineAt, wakeAt⟩ := a
  cases deadlineAt <;>
    simp [ofJson, json, Json.hasFields, fieldNames, Json.field?, Json.number?, readText,
      readDeadline, Json.ofTime]

end Arming

/-! ## Rows and registrations -/

inductive TimerState where
  | pending
  | woken
  | consumed
  | cancelled
  deriving DecidableEq, Repr

/-- How a timer left the state `pending`. -/
inductive Departure where
  | wake
  | close
  deriving DecidableEq, Repr

structure TimerPayload where
  identity : EffectIdentity
  source : Json
  arming : Json
  deriving DecidableEq

def TimerPayload.value (p : TimerPayload) : Json :=
  .obj [("identity", p.identity.value), ("source", p.source), ("arming", p.arming)]

/-- A row of `workflow_timers`, without its key. -/
structure TimerRow where
  invocationId : String
  fingerprint : String
  payload : TimerPayload
  state : TimerState
  dueAt : ℚ
  wakeAt : ℚ
  claimOwner : Option String
  generation : ℕ
  leaseUntil : Option ℚ
  /-- Auxiliary: how the timer left `pending`. -/
  left : Option Departure
  deriving DecidableEq

/-- `TimerRegistration`. -/
structure TimerRegistration where
  identity : EffectIdentity
  armedAt : ℚ
  dueAt : ℚ
  duration : ℚ
  receipt : EffectReceipt
  workflowSource : Json
  wakeAt : ℚ
  deadlineAt : Option ℚ
  deriving DecidableEq

inductive WakeReason where
  | timerDue
  | resumeRequested
  deriving DecidableEq, Repr

def WakeReason.text : WakeReason → String
  | .timerDue => "timer_due"
  | .resumeRequested => "resume_requested"

def WakeReason.ofText (text : String) : Option WakeReason :=
  if text = "timer_due" then some .timerDue
  else if text = "resume_requested" then some .resumeRequested
  else none

@[simp] theorem WakeReason.ofText_text (r : WakeReason) : ofText r.text = some r := by
  cases r <;> decide

/-- `TimerWake`. -/
structure TimerWake where
  timerKey : String
  dueAt : ℚ
  reason : WakeReason
  resumeInput : Json
  receipt : EffectReceipt
  deriving DecidableEq

/-- `TimerClaim`. -/
structure TimerClaim where
  registration : TimerRegistration
  owner : String
  generation : ℕ
  leaseUntil : ℚ

structure TimerStore where
  journal : JournalStore
  timers : Table String TimerRow

/-- What a deployment brings to its timers. -/
structure TimerServices where
  journal : JournalServices
  /-- The hash of `effect_request_digest` over the operation and the sorted payload. -/
  digest : String → Json → String
  maxPending : ℕ
  maxPending_pos : 1 ≤ maxPending

namespace Timers

variable (sv : TimerServices)

/-- The error class that the operations raise themselves. -/
def refuse (message : String) : OwaError := .plain .workflowExecutionError message

/-! ## Reading -/

/-- The stored columns and the receipt agree with the arming. -/
def Agrees (identity : EffectIdentity) (row : TimerRow) (a : Arming)
    (receipt : Option EffectReceipt) : Prop :=
  row.payload.identity = identity ∧ row.invocationId = identity.invocationId ∧
    row.fingerprint = identity.workflowFingerprint ∧ identity.operation = armOperation ∧
    a.fingerprint = identity.workflowFingerprint ∧ a.Sound ∧ a.dueAt = row.dueAt ∧
    a.wakeAt = row.wakeAt ∧
    receipt.any fun r => r.status = .completed ∧ r.output.canonical = row.payload.arming.canonical

instance (identity : EffectIdentity) (row : TimerRow) (a : Arming)
    (receipt : Option EffectReceipt) : Decidable (Agrees identity row a receipt) :=
  inferInstanceAs (Decidable (_ ∧ _))

/-- The registration of a row, after every check of `get`. -/
def decodeTimer (s : TimerStore) (identity : EffectIdentity) (row : TimerRow) :
    Except OwaError TimerRegistration := do
  let found ← EffectJournal.readReceipt sv.journal identity s.journal
  let a ← orRaise (Arming.ofJson row.payload.arming)
    (.plain .valueError "invalid timer evidence")
  raiseIf (¬ Agrees identity row a found) (.plain .valueError "invalid timer evidence")
  let receipt ← orRaise found (.plain .valueError "invalid timer evidence")
  let digest ← effectRequestDigest sv.digest identity.operation (a.request row.payload.source)
  raiseIf (receipt.requestDigest ≠ digest) (.plain .valueError "invalid timer evidence")
  raiseIf (row.payload.source.valid = false) invalidExpressionData
  return ⟨identity, a.armedAt, a.dueAt, a.duration, receipt, row.payload.source.canonical,
    a.wakeAt, a.deadlineAt⟩

/-- The `except` clause of `get`. -/
def evidenceError (e : OwaError) : OwaError :=
  if e.kind = .valueError then refuse "timer arming evidence is inconsistent" else e

/-- What `get` answers in a store. -/
def readTimer (identity : EffectIdentity) (s : TimerStore) :
    Except OwaError (Option TimerRegistration) :=
  match s.timers.lookup (sv.journal.key identity) with
  | none => .ok none
  | some row => match decodeTimer sv s identity row with
    | .ok registration => .ok (some registration)
    | .error e => .error (evidenceError e)

/-- `get`. -/
def get (identity : EffectIdentity) :
    Transaction OwaError TimerStore (Option TimerRegistration) := do
  let answer ← read (readTimer sv identity)
  orRaiseError answer

/-! ## Wakes -/

def wakeOutput (timerKey : String) (dueAt : ℚ) (reason : WakeReason) (resumeInput : Json) :
    Json :=
  .obj [("profile", .str "owa/wait-wake/v1"), ("timer_key", .str timerKey),
    ("due_at", .float dueAt), ("reason", .str reason.text), ("resume_input", resumeInput)]

def wakeRequest (armDigest : String) (dueAt : ℚ) : Json :=
  .obj [("arm_digest", .str armDigest), ("due_at", .float dueAt)]

/-- The reason and the resume input of a wake output that fits the timer. -/
def readWake (timerKey : String) (dueAt : ℚ) (value : Json) : Option (WakeReason × Json) := do
  if value.hasFields ["profile", "timer_key", "due_at", "reason", "resume_input"] ∧
      value.field? "profile" = some (.str "owa/wait-wake/v1") ∧
      value.field? "timer_key" = some (.str timerKey) ∧
      (value.field? "due_at").bind Json.number? = some dueAt then
    let reason ← (Arming.readText "reason" value).bind WakeReason.ofText
    let resumeInput ← value.field? "resume_input"
    if reason = .timerDue ∧ resumeInput ≠ .null then none
    else return (reason, resumeInput)
  else none

theorem readWake_wakeOutput {timerKey : String} {dueAt : ℚ} {reason : WakeReason}
    {resumeInput : Json} (h : reason = .timerDue → resumeInput = .null) :
    readWake timerKey dueAt (wakeOutput timerKey dueAt reason resumeInput) =
      some (reason, resumeInput) := by
  have hr : ¬ (reason = .timerDue ∧ resumeInput ≠ .null) := fun hc => hc.2 (h hc.1)
  simp [readWake, wakeOutput, Json.hasFields, Json.field?, Json.number?, Arming.readText, hr]

/-- `_wake_value`: the wake that a receipt records for a registration. -/
def wakeValue (registration : TimerRegistration) (receipt : EffectReceipt) :
    Except OwaError TimerWake := do
  let value ← orRaise (readWake (sv.journal.key registration.identity) registration.dueAt
      receipt.output) (refuse "timer wake evidence is inconsistent")
  let digest ← effectRequestDigest sv.digest wakeOperation
    (wakeRequest registration.receipt.requestDigest registration.dueAt)
  raiseIf (receipt.status ≠ .completed ∨ receipt.requestDigest ≠ digest)
    (refuse "timer wake evidence is inconsistent")
  return ⟨sv.journal.key registration.identity, registration.dueAt, value.1, value.2, receipt⟩

/-- What `wake_for` answers in a store. -/
def readWakeFor (registration : TimerRegistration) (s : TimerStore) :
    Except OwaError (Option TimerWake) := do
  let found ← EffectJournal.readReceipt sv.journal registration.identity.wake s.journal
  match found with
  | none => return none
  | some receipt =>
    let wake ← wakeValue sv registration receipt
    return some wake

/-! ## Transactions -/

def onJournal {α : Type} (t : Transaction OwaError JournalStore α) :
    Transaction OwaError TimerStore α :=
  t.zoom TimerStore.journal (fun x s => { s with journal := x })

/-- `_transaction` of an identity under its lease, if it has one. -/
def ownedBy {α : Type} (identity : EffectIdentity) (lease : Option ExecutionLease)
    (body : Transaction OwaError TimerStore α) : Transaction OwaError TimerStore α :=
  Ownership.ownedWriteTransaction (fun s => s.journal.runtime.owners) lease
    identity.invocationId identity.workflowFingerprint body

/-- A completed receipt of the owner `timer`. -/
def receiptFields (digest : String) (output : Json) : ReceiptFields :=
  ⟨digest, "timer", .completed, output, none, none, none, none, none⟩

/-! ## Arming -/

/-- The arguments of `arm`. -/
structure ArmRequest where
  duration : ℚ
  now : ℚ
  workflowSource : List (String × Json)
  deadlineAt : Option ℚ

def ArmRequest.arming (r : ArmRequest) (identity : EffectIdentity) : Arming where
  armedAt := r.now
  duration := r.duration
  dueAt := r.now + r.duration
  fingerprint := identity.workflowFingerprint
  deadlineAt := r.deadlineAt
  wakeAt := Arming.earliest (r.now + r.duration) r.deadlineAt

def ArmRequest.source (r : ArmRequest) : Json := (Json.obj r.workflowSource).canonical

/-- The row that `arm` inserts. -/
def ArmRequest.row (r : ArmRequest) (identity : EffectIdentity) : TimerRow where
  invocationId := identity.invocationId
  fingerprint := identity.workflowFingerprint
  payload := ⟨identity, r.source, (r.arming identity).json⟩
  state := .pending
  dueAt := (r.arming identity).dueAt
  wakeAt := (r.arming identity).wakeAt
  claimOwner := none
  generation := 0
  leaseUntil := none
  left := none

/-- The timers that count against the capacity. -/
def openTimers (s : TimerStore) : ℕ :=
  (s.timers.selectRows fun _ row => row.state = .pending ∨ row.state = .woken).length

/-- Record a new arming: its receipt and its row. -/
def armNew (identity : EffectIdentity) (r : ArmRequest) (digest : String) :
    Transaction OwaError TimerStore TimerRegistration := do
  let recorded ← onJournal (EffectJournal.getReceipt sv.journal identity)
  raiseIf (recorded ≠ none) (refuse "timer row is missing for its immutable receipt")
  let count ← read openTimers
  raiseIf (sv.maxPending ≤ count) (refuse "pending timer capacity is exhausted")
  let receipt ← orRaiseError
    (EffectReceipt.make (receiptFields digest (r.arming identity).json))
  onJournal (EffectJournal.insertCompletedReceipt sv.journal identity receipt)
  raiseIf ((r.row identity).payload.value.valid = false) invalidExpressionData
  write fun s => { s with timers := s.timers.put (sv.journal.key identity) (r.row identity) }
  let registration ← get sv identity
  orRaise registration (refuse "timer arming was not recorded")

/-- A repeated request answers the saved arming if it is the same request. -/
def armFound (identity : EffectIdentity) (r : ArmRequest) (digest : String)
    (existing : Option TimerRegistration) : Transaction OwaError TimerStore TimerRegistration :=
  match existing with
  | some registration => do
      raiseIf (registration.receipt.requestDigest ≠ digest)
        (refuse "timer request differs from saved arming")
      return registration
  | none => armNew sv identity r digest

/-- `arm`. -/
def arm (identity : EffectIdentity) (r : ArmRequest) (lease : Option ExecutionLease) :
    Transaction OwaError TimerStore TimerRegistration := do
  raiseIf (identity.operation ≠ armOperation ∨ r.duration ≤ 0 ∨ r.now ≤ 0 ∨
      r.deadlineAt.any (· ≤ r.now)) (refuse "timer arming request is invalid")
  raiseIf ((Json.obj r.workflowSource).valid = false) invalidExpressionData
  let digest ← orRaiseError
    (effectRequestDigest sv.digest identity.operation ((r.arming identity).request r.source))
  ownedBy identity lease do
    let existing ← get sv identity
    armFound sv identity r digest existing

/-! ## Waking, consuming and closing -/

/-- `UPDATE … SET state='woken' … WHERE identity = ? AND state='pending'`. -/
def wakeRow (key : String) (s : TimerStore) : TimerStore :=
  { s with
    timers := s.timers.updateWhere key (fun row => row.state = .pending)
      (fun row => { row with
        state := .woken
        claimOwner := none
        leaseUntil := none
        left := some .wake }) }

def wakeNew (known : TimerRegistration) (reason : WakeReason) (resumeInput : Json) (now : ℚ) :
    Transaction OwaError TimerStore TimerWake := do
  let row ← read fun s => s.timers.lookup (sv.journal.key known.identity)
  raiseIf (¬ row.any (fun row => row.state = .pending) ∨ (reason = .timerDue ∧ now < known.wakeAt))
    (refuse "timer is not eligible for this wake")
  let digest ← orRaiseError (effectRequestDigest sv.digest wakeOperation
    (wakeRequest known.receipt.requestDigest known.dueAt))
  let receipt ← orRaiseError (EffectReceipt.make (receiptFields digest
    (wakeOutput (sv.journal.key known.identity) known.dueAt reason
      (if reason = .resumeRequested then resumeInput else .null))))
  onJournal (EffectJournal.insertCompletedReceipt sv.journal known.identity.wake receipt)
  write (wakeRow (sv.journal.key known.identity))
  orRaiseError (wakeValue sv known receipt)

/-- The first recorded wake is the answer. -/
def wakeFound (known : TimerRegistration) (reason : WakeReason) (resumeInput : Json) (now : ℚ)
    (existing : Option EffectReceipt) : Transaction OwaError TimerStore TimerWake :=
  match existing with
  | some receipt => orRaiseError (wakeValue sv known receipt)
  | none => wakeNew sv known reason resumeInput now

/-- `wake`. -/
def wake (registration : TimerRegistration) (reason : WakeReason) (resumeInput : Json) (now : ℚ)
    (lease : Option ExecutionLease) : Transaction OwaError TimerStore TimerWake :=
  ownedBy registration.identity lease do
    let found ← get sv registration.identity
    let known ← orRaise found (refuse "timer wake arming evidence is inconsistent")
    raiseIf (known.receipt.canonical ≠ registration.receipt.canonical)
      (refuse "timer wake arming evidence is inconsistent")
    let existing ← onJournal
      (EffectJournal.getReceipt sv.journal registration.identity.wake)
    wakeFound sv known reason resumeInput now existing

/-- `UPDATE … SET state='consumed' … WHERE identity=? AND state IN ('woken','consumed')`. -/
def consumeRow (key : String) (s : TimerStore) : TimerStore :=
  { s with
    timers := s.timers.updateWhere key (fun row => row.state = .woken ∨ row.state = .consumed)
      (fun row => { row with
        state := .consumed
        claimOwner := none
        leaseUntil := none }) }

/-- `consume`. -/
def consume (registration : TimerRegistration) (lease : Option ExecutionLease) :
    Transaction OwaError TimerStore Unit :=
  ownedBy registration.identity lease do
    let known ← get sv registration.identity
    raiseIf (known ≠ some registration) (refuse "timer continuation lacks wake evidence")
    let found ← read (readWakeFor sv registration)
    let wake ← orRaiseError found
    raiseIf (wake = none) (refuse "timer continuation lacks wake evidence")
    let row ← read fun s => s.timers.lookup (sv.journal.key registration.identity)
    raiseIf (¬ row.any fun row => row.state = .woken ∨ row.state = .consumed)
      (refuse "timer continuation has incompatible disposition")
    write (consumeRow (sv.journal.key registration.identity))

/-! ## Verifying an invocation -/

/-- The indexed timer identities of an invocation, with their keys. -/
def indexedTimers (invocationId : String) (s : TimerStore) : List (String × EffectIdentity) :=
  (s.journal.effectInvocations.selectRows fun _ row => row.invocationId = invocationId ∧
      (row.payload.operation = armOperation ∨ row.payload.operation = wakeOperation)).map
    fun r => (r.1, r.2.payload)

def keysOf (operation : String) (indexed : List (String × EffectIdentity)) : List String :=
  (indexed.filter fun r => r.2.operation = operation).map Prod.fst

def sameSet (a b : List String) : Bool := a.all (· ∈ b) ∧ b.all (· ∈ a)

theorem sameSet_iff {a b : List String} : sameSet a b = true ↔ ∀ k, k ∈ a ↔ k ∈ b := by
  simp only [sameSet, List.all_eq_true, decide_eq_true_eq]
  constructor
  · rintro ⟨hab, hba⟩ k
    exact ⟨hab k, hba k⟩
  · intro h
    exact ⟨fun k hk => (h k).mp hk, fun k hk => (h k).mpr hk⟩

/-- The check of a row whose timer has a wake or should have one: the key of the wake. -/
def verifyWake (registration : TimerRegistration) (state : TimerState)
    (receipt : Option EffectReceipt) : Except OwaError (Option String) :=
  if state = .woken ∨ state = .consumed ∨ receipt ≠ none then do
    let receipt ← orRaise receipt (refuse "timer wake and disposition differ")
    raiseIf (state = .pending) (refuse "timer wake and disposition differ")
    let _ ← wakeValue sv registration receipt
    return some (sv.journal.key registration.identity.wake)
  else return none

/-- The check of one row: the key of its wake, if it has one. -/
def verifyRow (fingerprint : String) (s : TimerStore) (r : String × TimerRow) :
    Except OwaError (Option String) := do
  raiseIf (r.1 ≠ sv.journal.key r.2.payload.identity) (refuse "timer row identity is inconsistent")
  let found ← readTimer sv r.2.payload.identity s
  let registration ← orRaise found (refuse "timer invocation evidence is inconsistent")
  raiseIf (registration.identity.workflowFingerprint ≠ fingerprint)
    (refuse "timer invocation evidence is inconsistent")
  let receipt ← EffectJournal.readReceipt sv.journal r.2.payload.identity.wake s.journal
  verifyWake sv registration r.2.state receipt

/-- `verify_invocation`, as what it raises in a store. -/
def checkInvocation (invocationId fingerprint : String) (s : TimerStore) :
    Except OwaError Unit := do
  let rows := s.timers.selectRows fun _ row => row.invocationId = invocationId
  let indexed := indexedTimers invocationId s
  raiseIf (¬ indexed.all fun r => r.2.workflowFingerprint = fingerprint ∧
      r.1 = sv.journal.key r.2) (refuse "timer identity index is inconsistent")
  raiseIf (sameSet (keysOf armOperation indexed) (rows.map Prod.fst) = false)
    (refuse "timer row and arming identity index differ")
  let expected ← rows.mapM (verifyRow sv fingerprint s)
  raiseIf (sameSet (keysOf wakeOperation indexed) (expected.filterMap id) = false)
    (refuse "timer wake identity index is inconsistent")

/-- `verify_invocation`. -/
def verifyInvocation (invocationId fingerprint : String) :
    Transaction OwaError TimerStore Unit := do
  let answer ← read (checkInvocation sv invocationId fingerprint)
  orRaiseError answer

def closeRow (invocationId fingerprint : String) (row : TimerRow) : TimerRow :=
  if row.invocationId = invocationId ∧ row.fingerprint = fingerprint ∧
      (row.state = .pending ∨ row.state = .woken) then
    { row with
      state := .cancelled
      claimOwner := none
      leaseUntil := none
      left := if row.state = .pending then some .close else row.left }
  else row

/-- `close_invocation`. -/
def closeInvocation (invocationId fingerprint : String) :
    Transaction OwaError TimerStore Unit := do
  verifyInvocation sv invocationId fingerprint
  write fun s => { s with timers := s.timers.mapRows fun _ => closeRow invocationId fingerprint }

/-! ## Dispatch -/

def claimable (now : ℚ) (row : TimerRow) : Prop :=
  (row.state = .woken ∨ (row.state = .pending ∧ row.wakeAt ≤ now)) ∧
    ∀ u ∈ row.leaseUntil, u ≤ now

instance (now : ℚ) (row : TimerRow) : Decidable (claimable now row) :=
  inferInstanceAs (Decidable (_ ∧ _))

/-- What `registration_for_key` answers in a store. -/
def registrationForKey (key : String) (s : TimerStore) : Except OwaError TimerRegistration := do
  let row ← orRaise (s.timers.lookup key) (refuse "timer dispatch registration is missing")
  let found ← readTimer sv row.payload.identity s
  let registration ← orRaise found (refuse "timer dispatch identity is inconsistent")
  raiseIf (sv.journal.key registration.identity ≠ key)
    (refuse "timer dispatch identity is inconsistent")
  return registration

/-- Take the row over, one generation up. -/
def claimRow (owner key : String) (now leaseSeconds : ℚ) (registration : TimerRegistration)
    (row : Option TimerRow) : Transaction OwaError TimerStore (Option TimerClaim) :=
  match row with
  | none => return none
  | some row => do
      write fun s => { s with
        timers := s.timers.updateWhere key (fun r => r.generation = row.generation)
          (fun r => { r with
            claimOwner := some owner
            generation := row.generation + 1
            leaseUntil := some (now + leaseSeconds) }) }
      return some ⟨registration, owner, row.generation + 1, now + leaseSeconds⟩

/-- `claim_due`. -/
def claimDue (owner key : String) (now leaseSeconds : ℚ) :
    Transaction OwaError TimerStore (Option TimerClaim) := do
  raiseIf (owner = "" ∨ 128 < owner.length ∨ leaseSeconds ≤ 0)
    (refuse "timer claim bounds are invalid")
  let found ← read (registrationForKey sv key)
  let registration ← orRaiseError found
  let row ← read fun s => (s.timers.lookup key).filter (claimable now)
  claimRow owner key now leaseSeconds registration row

/-- `verify_claim`. -/
def verifyClaim (claim : TimerClaim) (now : ℚ) : Transaction OwaError TimerStore Unit := do
  let row ← read fun s => s.timers.lookup (sv.journal.key claim.registration.identity)
  raiseIf (¬ row.any fun row => row.claimOwner = some claim.owner ∧
      row.generation = claim.generation ∧ row.leaseUntil = some claim.leaseUntil ∧
      now < claim.leaseUntil ∧ (row.state = .pending ∨ row.state = .woken))
    (refuse "timer dispatch ownership is stale")

/-- `release_claim`. -/
def releaseClaim (claim : TimerClaim) : Transaction OwaError TimerStore Unit :=
  write fun s => { s with
    timers := s.timers.updateWhere (sv.journal.key claim.registration.identity)
      (fun row => row.claimOwner = some claim.owner ∧ row.generation = claim.generation)
      (fun row => { row with
        claimOwner := none
        leaseUntil := none }) }

end Timers
