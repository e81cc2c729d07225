/-
# Approvals

`approvals.py`: the durable state of human approvals.  A request is `pending` until a decision is
recorded or its time is over.  No timer watches that time: `get`, `list` and `decide` first sweep the
table, and the sweep marks the requests that are due as `expired`.

The sweep leaves protected requests alone, which have a transaction of their own.  What is protected
is decided twice.  `get` looks for an `approvalPolicy` in the data of the event; the sweep looks for
that name in the text of the event, with `LIKE`.

A call answers or raises, and its sweep is committed in both cases.  With `commit=False` the call is
part of a transaction around it; one that is rolled back leaves no trace.
-/
import OpenWorkflowAgent.EventEnvelopes
import OpenWorkflowAgent.Knowledge

/-! ## The text of an event -/

namespace Json

/-- A character inside a text. -/
def escaped (c : Char) : List Char :=
  match c.toNat with
  | 8 => ['\\', 'b']
  | 9 => ['\\', 't']
  | 10 => ['\\', 'n']
  | 12 => ['\\', 'f']
  | 13 => ['\\', 'r']
  | 34 => ['\\', '"']
  | 92 => ['\\', '\\']
  | n => if n < 32 then ['\\', 'u', '0', '0', (n / 16).digitChar, (n % 16).digitChar] else [c]

def quoted (text : String) : List Char := '"' :: (text.toList.flatMap escaped ++ ['"'])

mutual

/-- `json.dumps(value, ensure_ascii=False, separators=(",", ":"))`; `number` writes a float. -/
def dumps (number : ℚ → List Char) : Json → List Char
  | .null => "null".toList
  | .bool b => (toString b).toList
  | .int n => (toString n).toList
  | .float x => number x
  | .str text => quoted text
  | .arr items => '[' :: (dumpsItems number items ++ [']'])
  | .obj fields => '\x7b' :: (dumpsFields number fields ++ ['\x7d'])
  | .foreign => []

def dumpsItems (number : ℚ → List Char) : List Json → List Char
  | [] => []
  | v :: vs => dumps number v ++ ((if vs.isEmpty then [] else [',']) ++ dumpsItems number vs)

def dumpsFields (number : ℚ → List Char) : List (String × Json) → List Char
  | [] => []
  | (k, v) :: fs => quoted k ++ (':' :: dumps number v) ++
      ((if fs.isEmpty then [] else [',']) ++ dumpsFields number fs)

end

end Json

namespace EventEnvelope

/-- `raw`. -/
def raw (number : ℚ → List Char) (e : EventEnvelope) : List Char := e.value.canonical.dumps number

/-- `"approvalPolicy" in data`, for data that are an object. -/
def hasPolicy (e : EventEnvelope) : Bool :=
  match e.asDict.get "data" with
  | .obj fields => Properties.has fields "approvalPolicy"
  | _ => false

end EventEnvelope

/-! ## The store -/

inductive ApprovalStatus where
  | pending
  | approved
  | rejected
  | expired
  deriving DecidableEq

namespace ApprovalStatus

def name : ApprovalStatus → String
  | pending => "pending"
  | approved => "approved"
  | rejected => "rejected"
  | expired => "expired"

/-- `APPROVAL_STATES`. -/
def states : List ApprovalStatus := [pending, approved, rejected, expired]

/-- `APPROVAL_DECISIONS`. -/
def decisions : List ApprovalStatus := [approved, rejected]

end ApprovalStatus

/-- A row of `approvals`.  The columns of the two events hold their texts. -/
structure ApprovalRow where
  subject : String
  status : ApprovalStatus
  requestEvent : EventEnvelope
  requestedAt : ℚ
  expiresAt : Option ℚ
  decisionEvent : Option EventEnvelope
  operatorId : Option String
  decisionOperationKey : Option String
  decidedAt : Option ℚ
  eventScope : String

/-- What a protected approval is answered with. -/
structure Assignment where
  revision : ℕ
  assignee : Option String
  audit : List Json

/-- `ApprovalRecord`. -/
structure ApprovalRecord where
  approvalId : String
  row : ApprovalRow
  assignment : Option Assignment

/-- The tables. -/
structure ApprovalStore where
  approvals : Table String ApprovalRow
  /-- The ids of `protected_approval_requests`, if there is that table. -/
  protectedRequests : Option (List String)

/-- The connection and what the store is given. -/
structure ApprovalServices where
  isPostgresql : Bool
  /-- `self.protected.inspect`, if protected approvals are enabled. -/
  inspect : Option (ApprovalStore → String → Except OwaError Assignment)
  /-- The text of a float. -/
  number : ℚ → List Char
  timestamp : ℚ → String
  /-- `==` of two values. -/
  equal : Json → Json → Bool

/-- What the clock shows during a call: at its start, in the sweep, and when it decides. -/
structure CallClock where
  started : ℚ
  swept : ℚ
  decided : ℚ
  started_le : started ≤ swept

namespace ApprovalStore

variable (sv : ApprovalServices) (clock : CallClock)

/-- `ProtectedApprovalStore.contains`. -/
def contains (id : String) (s : ApprovalStore) : Bool := (s.protectedRequests.getD []).contains id

/-! ## The sweep -/

/-- `text LIKE '%"approvalPolicy"%'`; SQLite ignores the case of the ASCII letters. -/
def likePolicy (text : List Char) : Bool :=
  let fold := fun c : Char => if sv.isPostgresql then c else c.toLower
  "\"approvalPolicy\"".toList.map fold <:+: text.map fold

/-- The condition of the `UPDATE`. -/
def isDue (now : ℚ) (s : ApprovalStore) (id : String) (row : ApprovalRow) : Bool :=
  row.status = .pending && row.expiresAt.any (· ≤ now) &&
    !likePolicy sv (row.requestEvent.raw sv.number) && !s.contains id

/-- `_expire_due`. -/
def expireDue (now : ℚ) (s : ApprovalStore) : ApprovalStore :=
  { s with approvals := s.approvals.mapRows fun id row =>
      if isDue sv now s id row then { row with status := .expired } else row }

/-! ## Reading -/

/-- `protected_request` of `get`. -/
def protectedRequest (id : String) (s : ApprovalStore) : Bool :=
  (s.approvals.lookup id).any fun row =>
    row.requestEvent.hasPolicy || sv.inspect.isSome && s.contains id

/-- What `get` answers from the row, if there is one. -/
def found (id : String) (isProtected : Bool) (s : ApprovalStore) :
    Except OwaError (Option ApprovalRecord) :=
  match s.approvals.lookup id with
  | none => .ok none
  | some row =>
    if isProtected then do
      let inspect ← orRaise sv.inspect
        (.plain .approvalAuthorizationError "protected approval authority is unavailable")
      let assignment ← inspect s id
      pure (some ⟨id, row, some assignment⟩)
    else .ok (some ⟨id, row, none⟩)

/-- `get`. -/
def get (id : String) (s : ApprovalStore) :
    Except OwaError (Option ApprovalRecord) × ApprovalStore :=
  let isProtected := protectedRequest sv id s
  let swept := if isProtected then s else expireDue sv clock.swept s
  (found sv id isProtected swept, swept)

/-- What `list` answers from the swept table. -/
def listed (status : Option String) (limit : ℤ) (s : ApprovalStore) :
    Except OwaError (List ApprovalRecord) := do
  raiseIf (status.any fun name => !(ApprovalStatus.states.map ApprovalStatus.name).contains name)
    ⟨.approvalValidationError, "unsupported approval status", [("status", .str (status.getD ""))]⟩
  raiseIf (limit < 1 ∨ limit > 1000)
    (.plain .approvalValidationError "approval list limit must be between 1 and 1000")
  let rows := s.approvals.selectRows fun _ row => status.all fun name => name = row.status.name
  let newest := (rows.mergeSort fun a b => b.2.requestedAt ≤ a.2.requestedAt).take limit.toNat
  pure ((newest.filter fun r => !(sv.inspect.isSome && s.contains r.1)).map fun r =>
    ⟨r.1, r.2, none⟩)

/-- `list`. -/
def list (status : Option String) (limit : ℤ) (s : ApprovalStore) :
    Except OwaError (List ApprovalRecord) × ApprovalStore :=
  let swept := expireDue sv clock.swept s
  (listed sv status limit swept, swept)

/-! ## Deciding -/

/-- The arguments of `decide`, and the `uuid4` it draws for a decision without a key. -/
structure DecideRequest where
  approvalId : String
  decision : String
  operatorId : String
  value : Json
  operationKey : Option String
  uuid : String

/-- The key, if it is not the empty text. -/
def DecideRequest.key (r : DecideRequest) : Option String := r.operationKey.filter (· ≠ "")

/-- The same decision, made before under the same key. -/
def repeats (r : DecideRequest) (row : ApprovalRow) : Bool :=
  row.status.name = r.decision && r.operationKey.isSome &&
    row.decisionOperationKey = r.operationKey && row.operatorId = some r.operatorId &&
    row.decisionEvent.any fun e => sv.equal ((e.data.field? "value").getD .null) r.value

def decisionEvent (r : DecideRequest) (subject : String) : EventEnvelope where
  id := r.key.getD r.uuid
  source := "urn:open-workflow-agent:approvals"
  type := "io.openworkflow.agent.approval.decided"
  time := sv.timestamp clock.decided
  subject := some subject
  datacontenttype := some "application/json"
  dataschema := none
  data := .obj [("approval_id", .str r.approvalId), ("decision", .str r.decision),
    ("operator_id", .str r.operatorId), ("value", r.value)]
  extensions := [("approvalid", .str r.approvalId)]
  dataPresent := false

/-- Another approval was decided under the key. -/
def takenKey (id : String) (key : Option String) (s : ApprovalStore) : Bool :=
  key.isSome && s.approvals.rows.any fun r => r.1 ≠ id && r.2.decisionOperationKey = key

/-- The record `decide` answers, from what `get` has answered. -/
def decidedRecord (r : DecideRequest) (decision : ApprovalStatus) (s : ApprovalStore)
    (found : Option ApprovalRecord) : Except OwaError ApprovalRecord := do
  let details := [("approval_id", Json.str r.approvalId)]
  let record ← orRaise found ⟨.approvalNotFound, "approval not found", details⟩
  raiseIf record.assignment.isSome
    (.plain .approvalValidationError "protected approval requires its atomic protected transaction")
  raiseIf (record.row.status = .expired)
    ⟨.approvalConflict, "approval request has expired", details⟩
  if record.row.status ∈ ApprovalStatus.decisions then
    raiseIf (repeats sv r record.row = false) ⟨.approvalConflict,
      "approval already has a terminal decision",
      details ++ [("status", .str record.row.status.name)]⟩
    pure record
  else
    raiseIf (takenKey r.approvalId r.key s) ⟨.approvalConflict,
      "idempotency key belongs to another approval",
      [("operation_key", .str (r.operationKey.getD ""))]⟩
    -- the column of the keys is unique, for the empty text too
    raiseIf (takenKey r.approvalId r.operationKey s) (.plain .storageError "UNIQUE constraint failed")
    pure { record with row := { record.row with
      status := decision
      operatorId := some r.operatorId
      decisionOperationKey := r.operationKey
      decisionEvent := some (decisionEvent sv clock r record.row.subject)
      decidedAt := some clock.decided } }

/-- The `UPDATE` of a decision, where the row is still pending; a repeated decision is not. -/
def record (r : ApprovalRecord) (s : ApprovalStore) : ApprovalStore :=
  { s with approvals := s.approvals.updateWhere r.approvalId (·.status = .pending) fun _ => r.row }

/-- The call that the checks of the arguments let through. -/
def decideAs (r : DecideRequest) (decision : ApprovalStatus) (s : ApprovalStore) :
    Except OwaError ApprovalRecord × ApprovalStore :=
  let (answer, swept) := get sv clock r.approvalId s
  match answer >>= decidedRecord sv clock r decision swept with
  | .ok decided => (.ok decided, swept.record decided)
  | .error e => (.error e, swept)

/-- `decide`. -/
def decide (r : DecideRequest) (s : ApprovalStore) :
    Except OwaError ApprovalRecord × ApprovalStore :=
  match ApprovalStatus.decisions.find? fun status => status.name = r.decision with
  | none => (.error ⟨.approvalValidationError, "approval decision must be approved or rejected",
      [("decision", .str r.decision)]⟩, s)
  | some decision =>
    if r.operatorId.toList.all Knowledge.isSpace then
      (.error (.plain .approvalValidationError "operator identity is required"), s)
    else decideAs sv clock r decision s

/-! ## Histories -/

/-- The store after a call of `get`, `list` or `decide`. -/
inductive Call (s : ApprovalStore) : ApprovalStore → Prop
  | get (clock : CallClock) (id : String) : Call s (get sv clock id s).2
  | list (clock : CallClock) (status : Option String) (limit : ℤ) :
      Call s (list sv clock status limit s).2
  | decide (clock : CallClock) (r : DecideRequest) : Call s (decide sv clock r s).2

/-- A request that is not protected: its event, and the time it expires. -/
structure Requested (id : String) (e : EventEnvelope) (expires : ℚ) (s : ApprovalStore) : Prop where
  row : ∃ row, s.approvals.lookup id = some row ∧ row.requestEvent = e ∧
    row.expiresAt = some expires
  unprotected : s.contains id = false

/-- A decision is recorded between two stores. -/
def Records (id : String) (s s' : ApprovalStore) : Prop :=
  ∃ row, s'.approvals.lookup id = some row ∧ row.status ∈ ApprovalStatus.decisions ∧
    s.approvals.lookup id ≠ some row

variable {sv clock} {id : String} {e : EventEnvelope} {expires : ℚ} {s s' : ApprovalStore}
  {r : DecideRequest}

theorem lookup_expireDue {now : ℚ} : (expireDue sv now s).approvals.lookup id =
    (s.approvals.lookup id).map fun row =>
      if isDue sv now s id row then { row with status := .expired } else row :=
  Table.lookup_mapRows

theorem Requested.sweep (h : Requested id e expires s) (now : ℚ) :
    Requested id e expires (expireDue sv now s) := by
  obtain ⟨⟨row, hrow, hevent, hexpires⟩, hun⟩ := h
  refine ⟨⟨_, by rw [lookup_expireDue, hrow, Option.map_some], ?_⟩, hun⟩
  split
  · exact ⟨hevent, hexpires⟩
  · exact ⟨hevent, hexpires⟩

theorem Requested.read (h : Requested id e expires s) (sv : ApprovalServices) (clock : CallClock)
    (other : String) : Requested id e expires (get sv clock other s).2 := by
  unfold ApprovalStore.get
  dsimp only
  split
  · exact h
  · exact h.sweep _

theorem Requested.not_protected (h : Requested id e expires s) (hpolicy : e.hasPolicy = false) :
    protectedRequest sv id s = false := by
  obtain ⟨⟨row, hrow, rfl, -⟩, hun⟩ := h
  simp [protectedRequest, hrow, hpolicy, hun]

theorem found_eq_ok {isProtected : Bool} {answer : ApprovalRecord}
    (h : found sv id isProtected s = .ok (some answer)) :
    answer.approvalId = id ∧ s.approvals.lookup id = some answer.row := by
  unfold found at h
  split at h
  · cases h
  · next row hrow =>
    split at h
    · simp only [except_eq_ok] at h
      obtain ⟨_, -, _, -, hanswer⟩ := h
      cases hanswer
      exact ⟨rfl, hrow⟩
    · cases h
      exact ⟨rfl, hrow⟩

theorem decidedRecord_eq_ok {decision : ApprovalStatus} {found : Option ApprovalRecord}
    {decided : ApprovalRecord} (h : decidedRecord sv clock r decision s found = .ok decided) :
    ∃ answer, found = some answer ∧ decided.approvalId = answer.approvalId ∧
      decided.row.requestEvent = answer.row.requestEvent ∧
      decided.row.expiresAt = answer.row.expiresAt := by
  simp only [decidedRecord, except_eq_ok] at h
  obtain ⟨answer, hfound, -, -, h⟩ := h
  refine ⟨answer, hfound, ?_⟩
  split at h
  · simp only [except_eq_ok] at h
    cases h.2
    exact ⟨rfl, rfl, rfl⟩
  · simp only [except_eq_ok] at h
    cases h.2.2
    exact ⟨rfl, rfl, rfl⟩

/-- What `decide` leaves behind: the store, the swept store, or a decision of the row it has read. -/
theorem decide_cases : (decide sv clock r s).2 = s ∨
    (decide sv clock r s).2 = (get sv clock r.approvalId s).2 ∨
    ∃ decided row, (decide sv clock r s).2 = (get sv clock r.approvalId s).2.record decided ∧
      decided.approvalId = r.approvalId ∧
      (get sv clock r.approvalId s).2.approvals.lookup r.approvalId = some row ∧
      decided.row.requestEvent = row.requestEvent ∧ decided.row.expiresAt = row.expiresAt := by
  unfold decide
  split
  · exact Or.inl rfl
  split
  · exact Or.inl rfl
  right
  unfold decideAs
  dsimp only
  split
  · next decided hdecided =>
    obtain ⟨answer, hanswer, hdecided⟩ := except_bind_eq_ok.mp hdecided
    obtain ⟨read, rfl, hid, hevent, hexpires⟩ := decidedRecord_eq_ok hdecided
    obtain ⟨hread, hrow⟩ := found_eq_ok hanswer
    exact Or.inr ⟨decided, read.row, rfl, hid.trans hread, hrow, hevent, hexpires⟩
  · exact Or.inl rfl

theorem Requested.call (h : Requested id e expires s) (hcall : Call sv s s') :
    Requested id e expires s' := by
  cases hcall with
  | get clock other => exact h.read sv clock other
  | list => exact h.sweep _
  | decide clock r =>
    rcases decide_cases  with
      heq | heq | ⟨decided, read, heq, hid, hread, hevent, hexpires⟩
    · rwa [heq]
    · rw [heq]
      exact h.read _ _ _
    · rw [heq]
      obtain ⟨⟨row, hrow, hrequest⟩, hun⟩ := h.read sv clock r.approvalId
      refine ⟨⟨_, by rw [record, Table.lookup_updateWhere, hrow, Option.map_some], ?_⟩, hun⟩
      split
      · next hsame =>
        obtain rfl : read = row := by
          rw [hsame.1, hid, hread] at hrow
          exact Option.some.inj hrow
        exact ⟨hevent.trans hrequest.1, hexpires.trans hrequest.2⟩
      · exact hrequest

/-- Behind the sweep of a late call the request is not pending, and a decision it has is the one it
had. -/
theorem Requested.late (h : Requested id e expires s) (hpolicy : e.hasPolicy = false)
    (hlike : likePolicy sv (e.raw sv.number) = false) (hlate : expires ≤ clock.started) :
    ∃ row, (get sv clock id s).2.approvals.lookup id = some row ∧ row.status ≠ .pending ∧
      (row.status ∈ ApprovalStatus.decisions → s.approvals.lookup id = some row) := by
  have hget : (get sv clock id s).2 = expireDue sv clock.swept s := by
    simp [get, h.not_protected hpolicy]
  obtain ⟨⟨row, hrow, rfl, hexpires⟩, hun⟩ := h
  have hdue : isDue sv clock.swept s id row = true ↔ row.status = .pending := by
    simp [isDue, hexpires, hlike, hun, hlate.trans clock.started_le]
  rw [hget, lookup_expireDue, hrow, Option.map_some]
  refine ⟨_, rfl, ?_⟩
  split
  · simp [ApprovalStatus.decisions]
  · next hnot => exact ⟨fun hpending => hnot (hdue.mpr hpending), fun _ => rfl⟩

theorem Requested.not_records (h : Requested r.approvalId e expires s)
    (hpolicy : e.hasPolicy = false) (hlike : likePolicy sv (e.raw sv.number) = false)
    (hlate : expires ≤ clock.started) : ¬ Records r.approvalId s (decide sv clock r s).2 := by
  rintro ⟨row, hrow, hdecision, hnew⟩
  obtain ⟨swept, hswept, hpending, hkept⟩ := h.late hpolicy hlike hlate
  rcases decide_cases  with
    heq | heq | ⟨decided, _, heq, hid, -⟩
  · rw [heq] at hrow
    exact hnew hrow
  · rw [heq, hswept, Option.some.injEq] at hrow
    subst hrow
    exact hnew (hkept hdecision)
  · rw [heq, record, hid, Table.lookup_updateWhere, hswept, Option.map_some, Option.some.injEq,
      if_neg (by simp [hpending])] at hrow
    subst hrow
    exact hnew (hkept hdecision)

/-- A request as `create_request` stores it. -/
def pendingRow (id : String) (e : EventEnvelope) (expires : ℚ) : ApprovalRow :=
  ⟨id, .pending, e, 0, some expires, none, none, none, none, "anonymous"⟩

def requested (id : String) (e : EventEnvelope) (expires : ℚ) : ApprovalStore :=
  ⟨Table.put id (pendingRow id e expires) ∅, none⟩

theorem requested_spec (id : String) (e : EventEnvelope) (expires : ℚ) :
    Requested id e expires (requested id e expires) :=
  ⟨⟨_, Table.lookup_put_self, rfl, rfl⟩, rfl⟩

/-- An approval by an operator, without a key. -/
def approval (id : String) : DecideRequest := ⟨id, "approved", "operator", .null, none, ""⟩

/-- A request that the sweep takes for a protected one is decided at any time. -/
theorem requested_records (hpolicy : e.hasPolicy = false)
    (hlike : likePolicy sv (e.raw sv.number) = true) :
    Records id (requested id e expires)
      (decide sv clock (approval id) (requested id e expires)).2 := by
  have hrow : (requested id e expires).approvals.lookup id = some (pendingRow id e expires) :=
    Table.lookup_put_self
  have hswept : (expireDue sv clock.swept (requested id e expires)).approvals.lookup id =
      some (pendingRow id e expires) := by
    rw [lookup_expireDue, hrow, Option.map_some, if_neg]
    simp [isDue, pendingRow, hlike]
  have hget : get sv clock id (requested id e expires) =
      (.ok (some ⟨id, pendingRow id e expires, none⟩),
        expireDue sv clock.swept (requested id e expires)) := by
    simp [get, (requested_spec id e expires).not_protected hpolicy, found, hswept]
  have hdecide : decide sv clock (approval id) (requested id e expires) =
      decideAs sv clock (approval id) .approved (requested id e expires) :=
    if_neg (by decide +kernel : ¬ "operator".toList.all Knowledge.isSpace = true)
  rw [hdecide, decideAs, show (approval id).approvalId = id from rfl, hget]
  refine ⟨_, Table.lookup_updateWhere_self.trans (congrArg _ hswept), List.mem_cons_self, ?_⟩
  rw [hrow]
  exact fun hsame => by cases congrArg ApprovalRow.status (Option.some.inj hsame)

/-- **No late ordinary approval.**  A decision that starts when the time of the request is over is
never recorded, whatever calls came before, exactly if the text of the event does not have the name
of the policy in quotation marks. -/
theorem late_decisions_refused_iff (sv : ApprovalServices) (id : String) (e : EventEnvelope)
    (expires : ℚ) (hpolicy : e.hasPolicy = false) :
    (∀ s₀ s clock r, Requested id e expires s₀ → Relation.ReflTransGen (Call sv) s₀ s →
        r.approvalId = id → expires ≤ clock.started → ¬ Records id s (decide sv clock r s).2) ↔
      likePolicy sv (e.raw sv.number) = false := by
  constructor
  · intro h
    rw [Bool.eq_false_iff]
    intro hlike
    exact h _ _ ⟨expires, expires, expires, le_rfl⟩ (approval id) (requested_spec id e expires) .refl
      rfl le_rfl (requested_records hpolicy hlike)
  · rintro hlike s₀ s clock r hrequested hcalls rfl hlate
    have hs : Requested r.approvalId e expires s := by
      induction hcalls with
      | refl => exact hrequested
      | tail _ hcall ih => exact ih.call hcall
    exact hs.not_records hpolicy hlike hlate

/-- A request for an approval with the given data. -/
def requestEvent (data : Json) : EventEnvelope :=
  ⟨"a", "urn:example", "io.openworkflow.agent.approval.requested", "2026-01-01T00:00:00Z", some "a",
    some "application/json", none, data, [("approvalexpiresat", .str "2026-01-01T01:00:00Z")], true⟩

/-- Approvals on SQLite, without protected ones. -/
def sqlite : ApprovalServices := ⟨false, none, fun _ => [], fun _ => "", fun a b => a = b⟩

theorem late_decisions_refused_of_amount :
    (requestEvent (.obj [("amount", .int 5)])).hasPolicy = false ∧
      ∀ s₀ s clock r, Requested "a" (requestEvent (.obj [("amount", .int 5)])) 10 s₀ →
        Relation.ReflTransGen (Call sqlite) s₀ s → r.approvalId = "a" → 10 ≤ clock.started →
        ¬ Records "a" s (decide sqlite clock r s).2 :=
  ⟨by decide, (late_decisions_refused_iff sqlite "a" _ 10 (by decide)).mpr (by decide +kernel)⟩

/-- Data that only quote a policy. -/
def quoting : Json := .obj [("quoted", .obj [("approvalPolicy", .int 1)])]

theorem late_decision_recorded : (requestEvent quoting).hasPolicy = false ∧
    Requested "a" (requestEvent quoting) 10 (requested "a" (requestEvent quoting) 10) ∧
    Records "a" (requested "a" (requestEvent quoting) 10)
      (decide sqlite ⟨10, 10, 10, le_rfl⟩ (approval "a")
        (requested "a" (requestEvent quoting) 10)).2 :=
  ⟨by decide, requested_spec _ _ _, requested_records (by decide) (by decide +kernel)⟩

/-! ## Decisions are final -/

theorem lookup_sweep_of_decided {row : ApprovalRow} {now : ℚ}
    (hrow : s.approvals.lookup id = some row) (hdone : row.status ≠ .pending) :
    (expireDue sv now s).approvals.lookup id = some row := by
  rw [lookup_expireDue, hrow, Option.map_some, if_neg (by simp [isDue, hdone])]

theorem get_of_decided {row : ApprovalRow} {other : String}
    (hrow : s.approvals.lookup id = some row) (hdone : row.status ≠ .pending) :
    (get sv clock other s).2.approvals.lookup id = some row := by
  unfold ApprovalStore.get
  dsimp only
  split
  · exact hrow
  · exact lookup_sweep_of_decided hrow hdone

theorem protectedRequests_get {other : String} :
    (get sv clock other s).2.protectedRequests = s.protectedRequests := by
  unfold ApprovalStore.get
  dsimp only
  split <;> rfl

/-- A call changes neither a row that is not pending nor which requests are protected. -/
theorem Call.keeps {row : ApprovalRow} (hcall : Call sv s s')
    (hrow : s.approvals.lookup id = some row) (hdone : row.status ≠ .pending) :
    s'.approvals.lookup id = some row ∧ s'.protectedRequests = s.protectedRequests := by
  cases hcall with
  | get clock other => exact ⟨get_of_decided hrow hdone, protectedRequests_get⟩
  | list => exact ⟨lookup_sweep_of_decided hrow hdone, rfl⟩
  | decide clock r =>
    rcases decide_cases with heq | heq | ⟨decided, read, heq, -⟩
    · rw [heq]
      exact ⟨hrow, rfl⟩
    · rw [heq]
      exact ⟨get_of_decided hrow hdone, protectedRequests_get⟩
    · rw [heq]
      refine ⟨?_, protectedRequests_get⟩
      rw [record, Table.lookup_updateWhere, get_of_decided hrow hdone, Option.map_some,
        if_neg (by simp [hdone])]

/-- Behind a decision, `decide` answers it to those who made it before, and nobody else. -/
theorem decide_of_decided {row : ApprovalRow} {answer : ApprovalRecord}
    (hrow : s.approvals.lookup r.approvalId = some row)
    (hdecision : row.status ∈ ApprovalStatus.decisions)
    (hordinary : protectedRequest sv r.approvalId s = false)
    (hoperator : r.operatorId.toList.all Knowledge.isSpace = false) :
    (decide sv clock r s).1 = .ok answer ↔
      repeats sv r row = true ∧ ⟨r.approvalId, row, none⟩ = answer := by
  have hdone : row.status ≠ .pending ∧ row.status ≠ .expired := by
    constructor <;>
    · intro hstatus
      rw [hstatus] at hdecision
      simp [ApprovalStatus.decisions] at hdecision
  have hget : (get sv clock r.approvalId s).1 = .ok (some ⟨r.approvalId, row, none⟩) := by
    simp [get, hordinary, found, lookup_sweep_of_decided hrow hdone.1]
  unfold ApprovalStore.decide
  cases hfind : ApprovalStatus.decisions.find? fun status => status.name = r.decision with
  | none =>
    -- The request asks for something else than a decision, so it does not repeat this one.
    have hother : ¬ row.status.name = r.decision := by
      simpa using List.find?_eq_none.mp hfind _ hdecision
    simp [repeats, hother]
  | some decision =>
    have hdecided : decidedRecord sv clock r decision (get sv clock r.approvalId s).2
        (some ⟨r.approvalId, row, none⟩) = .ok answer ↔
        repeats sv r row = true ∧ ⟨r.approvalId, row, none⟩ = answer := by
      simp only [decidedRecord, except_eq_ok, Option.some.injEq, exists_eq_left', hdecision, hdone.2,
        if_true, Option.isSome_none, Bool.false_eq_true, not_false_eq_true, true_and,
        Bool.not_eq_false, pure, Except.pure, Except.ok.injEq]
    have hbind : (get sv clock r.approvalId s).1 >>= decidedRecord sv clock r decision
        (get sv clock r.approvalId s).2 = decidedRecord sv clock r decision
        (get sv clock r.approvalId s).2 (some ⟨r.approvalId, row, none⟩) := by
      rw [hget]
      rfl
    rw [← hdecided]
    simp only [hoperator, decideAs, hbind, Bool.false_eq_true, if_false]
    split <;> simp [*]

/-- **Decisions are final.**  Whatever calls follow, a row that is not pending stays as it is; and if
it was decided without a policy, `decide` answers the row to a request that repeats the decision
under its key, and refuses every other one. -/
theorem decisions_final {row : ApprovalRow} (hrow : s.approvals.lookup id = some row)
    (hdone : row.status ≠ .pending) (hcalls : Relation.ReflTransGen (Call sv) s s') :
    s'.approvals.lookup id = some row ∧
    (row.status ∈ ApprovalStatus.decisions → protectedRequest sv id s = false →
      ∀ clock r answer, r.approvalId = id → r.operatorId.toList.all Knowledge.isSpace = false →
        ((decide sv clock r s').1 = .ok answer ↔
          repeats sv r row = true ∧ ⟨id, row, none⟩ = answer)) := by
  have hkept : s'.approvals.lookup id = some row ∧
      s'.protectedRequests = s.protectedRequests := by
    induction hcalls with
    | refl => exact ⟨hrow, rfl⟩
    | tail _ hcall ih =>
      obtain ⟨hrow', hprotected⟩ := hcall.keeps ih.1 hdone
      exact ⟨hrow', hprotected.trans ih.2⟩
  refine ⟨hkept.1, ?_⟩
  rintro hdecision hordinary clock r answer rfl hoperator
  refine decide_of_decided hkept.1 hdecision ?_ hoperator
  simp only [protectedRequest, contains, hrow, hkept.1, hkept.2] at hordinary ⊢
  exact hordinary

def approvedRow : ApprovalRow :=
  { pendingRow "a" (requestEvent .null) 10 with
    status := .approved
    operatorId := some "operator"
    decisionOperationKey := some "key"
    decisionEvent := some (decisionEvent sqlite ⟨5, 5, 5, le_rfl⟩
      { approval "a" with operationKey := some "key" } "a")
    decidedAt := some 5 }

/-- The operator repeats the decision after its time. -/
theorem decision_final_of_approved :
    (decide sqlite ⟨20, 20, 20, le_rfl⟩ { approval "a" with operationKey := some "key" }
      (list sqlite ⟨15, 15, 15, le_rfl⟩ none 1
        ⟨(∅ : Table String ApprovalRow).put "a" approvedRow, none⟩).2).1 =
      .ok ⟨"a", approvedRow, none⟩ :=
  ((decisions_final (Table.lookup_put_self ..) (by decide) (.single (.list _ _ _))).2 (by decide)
    (by decide +kernel) _ _ _ rfl (by decide +kernel)).mpr ⟨by decide +kernel, rfl⟩

end ApprovalStore
