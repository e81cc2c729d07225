/-
# Lifecycle histories

`lifecycle_history.py`: the bounded history of lifecycle events that processes share, each with its
own limits.  `append` numbers the events in commit order and removes the oldest ones; `replay` gives
the events behind a known one and a cursor; `HistorySubscription` polls for what follows the cursor.

A payload is kept as the canonical tree of its text, and `bytes` is the length of that text.  The
store carries the log of everything appended, and an event that is read back carries the number of
its row; only the record of a stream looks at it.

The rows are always the end of the log (`Kept`), and reading behind a cursor raises where rows are
missing in front.  Nothing raises where `replay` stops at the reader's own `max_events`: the cursor
stands behind all rows nevertheless.  So a stream is contiguous exactly when no more events than
that followed the known one (`LifecycleHistories.history_contiguous_iff`).
-/
import OpenWorkflowAgent.LifecycleEvents

open Transaction

/-! ## Records -/

namespace Json

mutual

/-- `json.dumps(…, allow_nan=False)` has a text for the value. -/
def hasText : Json → Bool
  | .foreign => false
  | .arr items => itemsHaveText items
  | .obj fields => fieldsHaveText fields
  | _ => true

def itemsHaveText : List Json → Bool
  | [] => true
  | v :: vs => v.hasText && itemsHaveText vs

def fieldsHaveText : List (String × Json) → Bool
  | [] => true
  | (_, v) :: fs => v.hasText && fieldsHaveText fs

end

def text? : Json → Option String
  | .str text => some text
  | _ => none

def fields? : Json → Option Properties
  | .obj fields => some fields
  | _ => none

/-- `type(value) in (int, float)`. -/
def isNumber : Json → Bool
  | .int _ | .float _ => true
  | _ => false

/-- `type(value) is int`. -/
def isInt : Json → Bool
  | .int _ => true
  | _ => false

/-- `isinstance(value, str)`. -/
def isText (v : Json) : Bool := v.text?.isSome

end Json

/-- `valid_traceparent`: version, trace id, span id and flags in hexadecimal, neither id zero. -/
def validTraceparent : Json → Bool
  | .str text =>
    let digits := fun first count => (text.toList.drop first).take count
    text.toList.length = 55 ∧ digits 0 3 = ['0', '0', '-'] ∧ digits 35 1 = ['-'] ∧
      digits 52 1 = ['-'] ∧ (digits 3 32 ++ digits 36 16 ++ digits 53 2).all isHexDigit ∧
      (digits 3 32).any (· ≠ '0') ∧ (digits 36 16).any (· ≠ '0')
  | _ => false

/-- `LifecycleHistoryConfig`; its validation refuses any other value. -/
structure HistoryConfig where
  maxEvents : ℕ
  maxEventBytes : ℕ
  maxRetainedBytes : ℕ
  maxEvents_range : 1 ≤ maxEvents ∧ maxEvents ≤ 100000
  maxEventBytes_range : 256 ≤ maxEventBytes ∧ maxEventBytes ≤ 1048576
  maxRetainedBytes_range : 256 ≤ maxRetainedBytes ∧ maxRetainedBytes ≤ 1073741824
  capacity : maxEventBytes ≤ maxRetainedBytes

/-- A row of `lifecycle_history`. -/
structure HistoryRow where
  sequence : ℕ
  eventId : String
  payload : Json
  payloadBytes : ℕ

/-- The tables, the rows in order of their numbers, and the log of what was appended. -/
structure HistoryStore where
  rows : List HistoryRow
  counter : ℕ
  appended : List CloudEvent

namespace LifecycleHistory

/-- A `LifecycleHistoryError`. -/
def historyError (message : String) : OwaError := .plain .lifecycleHistoryError message

/-- The error of every record that `_decode` does not accept. -/
def invalidRecord : OwaError := historyError "lifecycle history record is invalid"

def requiredNames : List String :=
  ["specversion", "id", "source", "type", "time", "datacontenttype", "dataschema", "data"]

/-- The names the data of a record may have. -/
def allowedNames : List String :=
  ["event_id", "event_type", "invocation_id", "session_id", "workflow_name", "workflow_version",
    "task_name", "task_reference", "engine", "operation_id", "execution_id",
    "parent_invocation_id", "parent_task_reference", "event_name", "duration", "status", "attempt",
    "reason", "progress", "error"]

/-- The names of the data whose value need not be a text. -/
def structuredNames : List String := ["duration", "attempt", "progress", "error"]

/-- The error of a record: absent, or a code alone. -/
def errorShape : Json → Bool
  | .null => true
  | .obj fields => fields.all (fun f => f.1 = "code") ∧ (Properties.get fields "code").isText
  | _ => false

/-- The progress of a record: absent, or safe fields with scalar values. -/
def progressShape : Json → Bool
  | .null => true
  | .obj fields => fields.all fun f => f.1 ∈ safeProgressFields ∧ f.2.isScalar
  | _ => false

/-- The checks of `_decode` on the data of a record. -/
def checkData (type id : String) (data : Properties) : Except OwaError Unit := do
  raiseIf (data.get "event_id" ≠ .str id) invalidRecord
  raiseIf (¬ data.all fun f => f.1 ∈ allowedNames) invalidRecord
  let eventType ← orRaise (data.get "event_type").text? invalidRecord
  raiseIf (type ≠ lifecycleType eventType) invalidRecord
  raiseIf (¬ data.all fun f => f.1 ∈ structuredNames ∨ f.2.isText) invalidRecord
  raiseIf (data.has "duration" ∧ ¬ (data.get "duration").isNumber) invalidRecord
  raiseIf (data.has "attempt" ∧ ¬ (data.get "attempt").isInt) invalidRecord
  raiseIf (¬ errorShape (data.get "error")) invalidRecord
  raiseIf (¬ progressShape (data.get "progress")) invalidRecord

/-- `_decode`. -/
def decode (bytes : Json → ℕ) (config : HistoryConfig) (payload : Json) (size : ℕ) :
    Except OwaError CloudEvent := do
  raiseIf (¬ (0 < size ∧ size ≤ config.maxEventBytes)) invalidRecord
  raiseIf (bytes payload ≠ size) invalidRecord
  let value ← orRaise payload.fields? invalidRecord
  raiseIf (¬ requiredNames.all fun name => value.has name) invalidRecord
  raiseIf (¬ value.all fun f => f.1 ∈ requiredNames ++ ["subject", "traceparent"]) invalidRecord
  raiseIf (value.has "traceparent" ∧ ¬ validTraceparent (value.get "traceparent")) invalidRecord
  raiseIf (value.get "specversion" ≠ .str CloudEvent.specversion10) invalidRecord
  raiseIf (value.get "dataschema" ≠ .str CloudEvent.lifecycleSchema) invalidRecord
  raiseIf (value.get "source" ≠ .str CloudEvent.lifecycleSource) invalidRecord
  raiseIf (value.get "datacontenttype" ≠ .str CloudEvent.jsonContent) invalidRecord
  let id ← orRaise (value.get "id").text? invalidRecord
  raiseIf (¬ (0 < id.utf8ByteSize ∧ id.utf8ByteSize ≤ 256)) invalidRecord
  raiseIf (id.toList.any fun c => c.toNat < 32 ∨ c.toNat = 127) invalidRecord
  let type ← orRaise (value.get "type").text? invalidRecord
  raiseIf (¬ "com.openworkflow.agent.lifecycle.".toList.isPrefixOf type.toList) invalidRecord
  let time ← orRaise (value.get "time").text? invalidRecord
  let data ← orRaise (value.get "data").fields? invalidRecord
  checkData type id data
  raiseIf (value.get "subject" ≠ .null ∧ ¬ (value.get "subject").isText) invalidRecord
  raiseIf (¬ payload.hasText) invalidRecord
  pure ⟨CloudEvent.specversion10, id, CloudEvent.lifecycleSource, type,
    (value.get "subject").text?, time, CloudEvent.jsonContent, CloudEvent.lifecycleSchema, data,
    (value.get "traceparent").text?⟩

end LifecycleHistory

/-- The text that `append` stores for an event. -/
def CloudEvent.payload (e : CloudEvent) : Json := (Json.obj e.asDict).canonical

namespace LifecycleHistory

variable (bytes : Json → ℕ) (config : HistoryConfig)

/-! ## Transactions of one process -/

/-- `_counter`. -/
def checkedCounter : Transaction OwaError HistoryStore ℕ := do
  let counter ← read HistoryStore.counter
  raiseIf (¬ counter < 2 ^ 63 - 1) (historyError "lifecycle history counter is invalid")
  let maximum ← read fun s => (s.rows.map HistoryRow.sequence).foldr max 0
  raiseIf (maximum ≠ counter) (historyError "lifecycle history counter is inconsistent")
  pure counter

/-- The loop over the newest rows: the number of the oldest row that is retained. -/
def firstRetained (limit : ℕ) : List HistoryRow → ℕ → ℕ → Except OwaError ℕ
  | [], _, first => .ok first
  | row :: rows, retained, first =>
    if row.payloadBytes < 1 then
      .error (historyError "lifecycle history byte count is invalid")
    else if limit < retained + row.payloadBytes then .ok first
    else firstRetained limit rows (retained + row.payloadBytes) row.sequence

/-- The part of `append` for an event whose id is not retained. -/
def insert (event : CloudEvent) (size counter : ℕ) : Transaction OwaError HistoryStore Unit := do
  write fun s => { s with
    rows := s.rows ++ [⟨counter + 1, event.id, event.payload, size⟩]
    counter := counter + 1
    appended := s.appended ++ [event] }
  let newest ← read fun s => s.rows.reverse.take config.maxEvents
  let first ← orRaiseError (firstRetained config.maxRetainedBytes newest 0 (counter + 1))
  write fun s => { s with rows := s.rows.filter fun row => first ≤ row.sequence }

def rowOf (id : String) (s : HistoryStore) : Option HistoryRow :=
  s.rows.find? fun row => row.eventId = id

/-- `append`.  A retained event with the same text is left alone. -/
def append (event : CloudEvent) : Transaction OwaError HistoryStore Unit := do
  raiseIf (¬ (Json.obj event.asDict).hasText) (historyError "lifecycle history event is invalid")
  let _ ← orRaiseError (decode bytes config event.payload (bytes event.payload))
  let counter ← checkedCounter
  let previous ← read (rowOf event.id)
  match previous with
  | some row =>
    raiseIf (row.payload ≠ event.payload)
      (historyError "lifecycle history event identity conflicts")
  | none => insert config event (bytes event.payload) counter

def decodeRows : List HistoryRow → Except OwaError (List (ℕ × CloudEvent))
  | [] => .ok []
  | row :: rows => do
      let event ← decode bytes config row.payload row.payloadBytes
      let events ← decodeRows rows
      pure ((row.sequence, event) :: events)

def rowsAfter (cursor limit : ℕ) (s : HistoryStore) : List HistoryRow :=
  (s.rows.filter fun row => cursor + 1 ≤ row.sequence).take limit

/-- `_after`. -/
def after (cursor limit : ℕ) : Transaction OwaError HistoryStore (List (ℕ × CloudEvent)) := do
  let rows ← read (rowsAfter cursor limit)
  raiseIf (rows.head?.any fun row => row.sequence ≠ cursor + 1)
    (.plain .bufferError "lifecycle history retention overtook the observer")
  orRaiseError (decodeRows bytes config rows)

/-- `after`. -/
def checkedAfter (cursor limit : ℕ) :
    Transaction OwaError HistoryStore (List (ℕ × CloudEvent)) := do
  let _ ← checkedCounter
  after bytes config cursor limit

def eventsBehind (id : String) : Transaction OwaError HistoryStore (List (ℕ × CloudEvent)) := do
  let found ← read (rowOf id)
  let row ← orRaise found
    (.plain .lookupError "last lifecycle event id is outside the bounded replay window")
  after bytes config row.sequence config.maxEvents

def missedEvents : Option String → Transaction OwaError HistoryStore (List (ℕ × CloudEvent))
  | none => pure []
  | some id => eventsBehind bytes config id

/-- `replay`: the events behind the given one and the cursor. -/
def replay (lastEventId : Option String) :
    Transaction OwaError HistoryStore (List (ℕ × CloudEvent) × ℕ) := do
  let counter ← checkedCounter
  let events ← missedEvents bytes config lastEventId
  pure (events, counter)

end LifecycleHistory

/-! ## Subscriptions and runs -/

/-- A `HistorySubscription` of a process with the given limits.  The last five fields are the record
of the stream. -/
structure HistorySubscription where
  config : HistoryConfig
  cursor : ℕ
  capacity : ℕ
  pending : List (ℕ × CloudEvent)
  closed : Bool
  /-- The `last_event_id` of the subscriber. -/
  lastEventId : Option String
  /-- The number of that event, or of the last one appended before the subscription. -/
  start : ℕ
  /-- How many events had been appended before it subscribed. -/
  opened : ℕ
  replayed : List (ℕ × CloudEvent)
  received : List (ℕ × CloudEvent)

/-- What one turn of `receive` ends with. -/
inductive HistoryReception where
  | event (e : CloudEvent)
  | raised (error : OwaError)
  /-- Nothing to hand out yet: the loop sleeps or times out. -/
  | waiting

namespace HistorySubscription

/-- `self.pending.pop(0)`, if there is something pending. -/
def popPending (sub : HistorySubscription) : HistoryReception × HistorySubscription :=
  match sub.pending with
  | [] => (.waiting, sub)
  | item :: rest =>
    (.event item.2, { sub with
      cursor := sub.cursor + 1, pending := rest, received := sub.received ++ [item] })

/-- What was fetched becomes pending, also when there is too much of it. -/
def fetched (events : List (ℕ × CloudEvent)) (sub : HistorySubscription) :
    HistoryReception × HistorySubscription :=
  if sub.capacity < events.length then
    (.raised (.plain .bufferError "lifecycle history observer exceeded its bounded queue"),
      { sub with pending := events })
  else popPending { sub with pending := events }

/-- One turn of the loop of `receive`. -/
def receive (bytes : Json → ℕ) (s : HistoryStore) (sub : HistorySubscription) :
    HistoryReception × HistorySubscription :=
  if sub.closed then
    (.raised (.plain .runtimeError "lifecycle history subscription is closed"), sub)
  else if sub.pending = [] then
    match (LifecycleHistory.checkedAfter bytes sub.config sub.cursor (sub.capacity + 1)).answer s with
    | .error error => (.raised error, sub)
    | .ok events => fetched events sub
  else popPending sub

/-- `close`. -/
def close (sub : HistorySubscription) : HistorySubscription := { sub with closed := true }

def delivered (sub : HistorySubscription) : List (ℕ × CloudEvent) := sub.replayed ++ sub.received

end HistorySubscription

/-- A shared history and the subscriptions of all processes. -/
structure LifecycleHistories where
  store : HistoryStore
  subscriptions : List HistorySubscription

namespace LifecycleHistories

variable (bytes : Json → ℕ)

/-- A history before its first event. -/
def initial : LifecycleHistories := ⟨⟨[], 0, []⟩, []⟩

/-- A call of one of the processes, with the limits of that process where it matters. -/
inductive Operation where
  | append (config : HistoryConfig) (event : CloudEvent)
  | subscribe (config : HistoryConfig) (lastEventId : Option String) (queueSize : ℕ)
  | receive (i : ℕ)
  | close (i : ℕ)

/-- The number of the event a subscriber saw last. -/
def startOf (lastEventId : Option String) (s : HistoryStore) : ℕ :=
  match lastEventId with
  | none => s.counter
  | some id => ((LifecycleHistory.rowOf id s).map HistoryRow.sequence).getD 0

/-- The subscription that `subscribe` makes of an answer of `replay`. -/
def opened (config : HistoryConfig) (lastEventId : Option String) (queueSize : ℕ)
    (s : HistoryStore) (answer : List (ℕ × CloudEvent) × ℕ) : HistorySubscription :=
  ⟨config, answer.2, queueSize, [], false, lastEventId, startOf lastEventId s, s.counter, answer.1,
    []⟩

/-- `subscribe` of a sink with this history. -/
def subscribe (config : HistoryConfig) (lastEventId : Option String) (queueSize : ℕ)
    (w : LifecycleHistories) : LifecycleHistories :=
  if queueSize < 1 then w
  else match (LifecycleHistory.replay bytes config lastEventId).answer w.store with
    | .error _ => w
    | .ok answer => { w with
        subscriptions := w.subscriptions ++ [opened config lastEventId queueSize w.store answer] }

/-- The history and the subscriptions after a call. -/
def next (w : LifecycleHistories) : Operation → LifecycleHistories
  | .append config event => { w with
      store := (LifecycleHistory.append bytes config event).after w.store }
  | .subscribe config lastEventId queueSize => subscribe bytes config lastEventId queueSize w
  | .receive i => { w with
      subscriptions := w.subscriptions.modify i fun sub => (sub.receive bytes w.store).2 }
  | .close i => { w with subscriptions := w.subscriptions.modify i HistorySubscription.close }

/-- The history after any interleaving of calls. -/
def run (operations : List Operation) : LifecycleHistories :=
  operations.foldl (next bytes) initial

end LifecycleHistories

/-! ## Reading back what was written -/

namespace CloudEvent

/-- The event as its text is read back: the fields of its data in order of their names. -/
def normal (e : CloudEvent) : CloudEvent :=
  { e with data := (Json.canonicalFields e.data).insertionSort fun a b => a.1 ≤ b.1 }

theorem get_asDict_subject (e : CloudEvent) :
    (Properties.get e.asDict "subject").canonical.text? = e.subject := by
  cases hs : e.subject <;> cases ht : e.traceparent <;>
    simp [asDict, optionalField, hs, ht, Properties.get, Json.field?, Json.canonical, Json.text?]

theorem get_asDict_traceparent (e : CloudEvent) :
    (Properties.get e.asDict "traceparent").canonical.text? = e.traceparent := by
  cases hs : e.subject <;> cases ht : e.traceparent <;>
    simp [asDict, optionalField, hs, ht, Properties.get, Json.field?, Json.canonical, Json.text?]

end CloudEvent

namespace LifecycleHistory

variable {bytes : Json → ℕ} {config : HistoryConfig}

/-- **Round trip.**  A text that was written for an event is read back as that event. -/
theorem decode_payload {e e' : CloudEvent} {size : ℕ}
    (h : decode bytes config e.payload size = .ok e') : e' = e.normal := by
  have hpayload : e.payload.fields? =
      some ((Json.canonicalFields e.asDict).insertionSort fun a b => a.1 ≤ b.1) := rfl
  simp only [decode, except_eq_ok, hpayload, Option.some.injEq] at h
  obtain ⟨-, _, value, rfl, -, -, -, hspec, hschema, hsource, hcontent, id, hid, -, _, type, htype,
    _, time, htime, data, hdata, -, -, -, hpure⟩ := h
  simp only [Properties.get_canonical, e.get_asDict_subject,
    e.get_asDict_traceparent, not_not] at hspec hschema hsource hcontent hid htype htime hdata hpure
  have hspec' : e.specversion = CloudEvent.specversion10 := Json.str.inj hspec
  have hschema' : e.dataschema = CloudEvent.lifecycleSchema := Json.str.inj hschema
  have hsource' : e.source = CloudEvent.lifecycleSource := Json.str.inj hsource
  have hcontent' : e.datacontenttype = CloudEvent.jsonContent := Json.str.inj hcontent
  have hid' : e.id = id := Option.some.inj hid
  have htype' : e.type = type := Option.some.inj htype
  have htime' : e.time = time := Option.some.inj htime
  have hdata' : (Json.canonicalFields e.data).insertionSort (fun a b => a.1 ≤ b.1) = data :=
    Option.some.inj hdata
  rw [← Except.ok.inj hpure, CloudEvent.normal, hdata', ← hspec', ← hschema', ← hsource',
    ← hcontent', ← hid', ← htype', ← htime']

end LifecycleHistory

/-! ## The rows are the end of the log -/

def Genuine (appended : List CloudEvent) (item : ℕ × CloudEvent) : Prop :=
  ∃ e, 1 ≤ item.1 ∧ appended[item.1 - 1]? = some e ∧ item.2 = e.normal

theorem Genuine.grow {appended : List CloudEvent} {item : ℕ × CloudEvent}
    (h : Genuine appended item) (e : CloudEvent) : Genuine (appended ++ [e]) item := by
  obtain ⟨e₀, hpos, hget, heq⟩ := h
  refine ⟨e₀, hpos, ?_, heq⟩
  rw [List.getElem?_append_left (List.getElem?_eq_some_iff.mp hget).1]
  exact hget

namespace HistoryStore

def oldest (s : HistoryStore) : ℕ := s.counter - s.rows.length + 1

/-- The rows are the last events of the log, numbered by their place in it. -/
structure Kept (s : HistoryStore) : Prop where
  counted : s.counter = s.appended.length
  within : s.rows.length ≤ s.counter
  numbered : s.rows.map HistoryRow.sequence = List.range' s.oldest s.rows.length
  genuine : ∀ row ∈ s.rows, ∃ e, s.appended[row.sequence - 1]? = some e ∧ row.eventId = e.id ∧
    row.payload = e.payload
  distinct : (s.rows.map HistoryRow.eventId).Nodup

variable {s : HistoryStore}

theorem Kept.mem_range (h : Kept s) {row : HistoryRow} (hrow : row ∈ s.rows) :
    s.oldest ≤ row.sequence ∧ row.sequence ≤ s.counter := by
  have hmem : row.sequence ∈ List.range' s.oldest s.rows.length := by
    rw [← h.numbered]
    exact List.mem_map_of_mem hrow
  rw [List.mem_range'_1] at hmem
  have hwithin := h.within
  unfold oldest at hmem ⊢
  omega

theorem Kept.exists_row (h : Kept s) {k : ℕ} (hlow : s.oldest ≤ k) (hhigh : k ≤ s.counter) :
    ∃ row ∈ s.rows, row.sequence = k := by
  have hmem : k ∈ s.rows.map HistoryRow.sequence := by
    rw [h.numbered, List.mem_range'_1]
    have hwithin := h.within
    unfold oldest at hlow ⊢
    omega
  exact List.mem_map.mp hmem

theorem Kept.trim (h : Kept s) (first : ℕ) :
    Kept { s with rows := s.rows.filter fun row => first ≤ row.sequence } := by
  have hdrop := filter_of_numbered h.numbered first
  have hwithin := h.within
  have hlen : (s.rows.drop (first - s.oldest)).length ≤ s.counter := by
    rw [List.length_drop]
    omega
  refine ⟨h.counted, ?_, ?_, ?_, ?_⟩
  · rw [hdrop]
    exact hlen
  · show (List.filter _ s.rows).map _ = List.range' (s.counter - (List.filter _ s.rows).length + 1) _
    rw [hdrop, drop_of_numbered h.numbered]
    rw [List.range'_inj]
    refine ⟨rfl, ?_⟩
    rw [List.length_drop]
    unfold oldest
    omega
  · intro row hrow
    exact h.genuine row (List.mem_of_mem_filter hrow)
  · exact h.distinct.sublist (List.filter_sublist.map _)

theorem Kept.insert (h : Kept s) {event : CloudEvent} (size : ℕ)
    (hnew : ∀ row ∈ s.rows, row.eventId ≠ event.id) :
    Kept {
      rows := s.rows ++ [⟨s.counter + 1, event.id, event.payload, size⟩]
      counter := s.counter + 1
      appended := s.appended ++ [event] } := by
  have hwithin := h.within
  refine ⟨?_, ?_, ?_, ?_, ?_⟩
  · rw [List.length_append, List.length_singleton, h.counted]
  · rw [List.length_append, List.length_singleton]
    exact Nat.succ_le_succ hwithin
  · show (s.rows ++ [_]).map _ = List.range' (s.counter + 1 - (s.rows ++ [_]).length + 1) _
    rw [List.map_append, h.numbered, List.length_append, List.length_singleton,
      List.range'_1_concat]
    unfold oldest
    congr 2
    · omega
    · rw [List.map_cons, List.map_nil]
      congr 1
      show s.counter + 1 = _
      omega
  · intro row hrow
    rcases List.mem_append.mp hrow with hrow | hrow
    · obtain ⟨e, hget, hid, hpayload⟩ := h.genuine row hrow
      refine ⟨e, ?_, hid, hpayload⟩
      rw [List.getElem?_append_left (List.getElem?_eq_some_iff.mp hget).1]
      exact hget
    · rw [List.mem_singleton] at hrow
      subst hrow
      refine ⟨event, ?_, rfl, rfl⟩
      rw [Nat.add_sub_cancel, h.counted, List.getElem?_append_right le_rfl, Nat.sub_self]
      rfl
  · rw [List.map_append, List.nodup_append]
    refine ⟨h.distinct, List.nodup_singleton _, ?_⟩
    intro id hid id' hid' heq
    obtain ⟨row, hrow, rfl⟩ := List.mem_map.mp hid
    rw [List.map_cons, List.map_nil, List.mem_singleton] at hid'
    exact hnew row hrow (heq.trans hid')

end HistoryStore

namespace LifecycleHistory

variable {bytes : Json → ℕ} {config : HistoryConfig} {s s' : HistoryStore}

theorem checkedCounter_eq_ok {counter : ℕ} (h : checkedCounter.run s = .ok (counter, s')) :
    counter = s.counter ∧ s' = s := by
  simp only [checkedCounter, run_eq_ok] at h
  obtain ⟨-, -, rfl, rfl⟩ := h
  exact ⟨rfl, rfl⟩

/-- What `append` does when it commits: nothing, or the event becomes the last of the log and the
oldest rows go. -/
theorem append_eq_ok {event : CloudEvent} {u : Unit}
    (h : (append bytes config event).run s = .ok (u, s')) :
    s' = s ∨ ((∀ row ∈ s.rows, row.eventId ≠ event.id) ∧ ∃ first,
      s' = {
        rows := (s.rows ++ [(⟨s.counter + 1, event.id, event.payload, bytes event.payload⟩ :
          HistoryRow)]).filter fun row => first ≤ row.sequence
        counter := s.counter + 1
        appended := s.appended ++ [event] }) := by
  simp only [append, run_eq_ok] at h
  obtain ⟨-, _, -, counter, _, hcounter, h⟩ := h
  obtain ⟨rfl, rfl⟩ := checkedCounter_eq_ok hcounter
  split at h
  · rw [raiseIf_eq_ok] at h
    exact Or.inl h.2.symm
  · next hprevious =>
    right
    refine ⟨?_, ?_⟩
    · intro row hrow
      have hnone := List.find?_eq_none.mp hprevious row hrow
      simpa using hnone
    · simp only [insert, run_eq_ok] at h
      obtain ⟨first, -, rfl⟩ := h
      exact ⟨first, rfl⟩

theorem append_kept {event : CloudEvent} (h : s.Kept) :
    ((append bytes config event).after s).Kept := by
  apply after_induction h
  intro u s' hrun
  rcases append_eq_ok hrun with rfl | ⟨hnew, first, rfl⟩
  · exact h
  · exact (h.insert (bytes event.payload) hnew).trim first

theorem append_appended {event : CloudEvent} :
    ((append bytes config event).after s).appended = s.appended ∨
      ((append bytes config event).after s).appended = s.appended ++ [event] := by
  apply after_induction (P := fun x : HistoryStore =>
    x.appended = s.appended ∨ x.appended = s.appended ++ [event])
  · exact Or.inl rfl
  · intro u s' hrun
    rcases append_eq_ok hrun with rfl | ⟨-, first, rfl⟩
    · exact Or.inl rfl
    · exact Or.inr rfl

/-! ## Reading behind a cursor -/

theorem decodeRows_eq_ok {rows : List HistoryRow} {events : List (ℕ × CloudEvent)}
    (h : decodeRows bytes config rows = .ok events) :
    events.map Prod.fst = rows.map HistoryRow.sequence ∧ ∀ item ∈ events, ∃ row ∈ rows,
      row.sequence = item.1 ∧ decode bytes config row.payload row.payloadBytes = .ok item.2 := by
  induction rows generalizing events with
  | nil =>
    rw [← Except.ok.inj h]
    exact ⟨rfl, fun _ hitem => (by cases hitem)⟩
  | cons row _ ih =>
    simp only [decodeRows, except_bind_eq_ok] at h
    obtain ⟨event, hevent, rest, hrest, hpure⟩ := h
    obtain ⟨hnumbers, hall⟩ := ih hrest
    rw [← Except.ok.inj hpure]
    refine ⟨?_, ?_⟩
    · rw [List.map_cons, List.map_cons, hnumbers]
    · intro item hitem
      rcases List.mem_cons.mp hitem with rfl | hitem
      · exact ⟨row, List.mem_cons_self, rfl, hevent⟩
      · obtain ⟨row', hrow', hsame⟩ := hall item hitem
        exact ⟨row', List.mem_cons_of_mem _ hrow', hsame⟩

/-- What `_after` answers are events of the log, numbered from the cursor on. -/
structure Behind (s : HistoryStore) (cursor : ℕ) (events : List (ℕ × CloudEvent)) : Prop where
  numbered : events.map Prod.fst = List.range' (cursor + 1) events.length
  genuine : ∀ item ∈ events, Genuine s.appended item

theorem after_behind (hkept : s.Kept) {cursor limit : ℕ} {events : List (ℕ × CloudEvent)}
    (h : (after bytes config cursor limit).run s = .ok (events, s')) :
    s' = s ∧ Behind s cursor events ∧ (s.oldest ≤ cursor + 1 →
      events.length = min limit (s.counter - cursor)) := by
  simp only [after, run_eq_ok] at h
  obtain ⟨hhead, hdecode, rfl⟩ := h
  generalize hrows : rowsAfter cursor limit s = rows at hhead hdecode
  obtain ⟨hnumbers, hall⟩ := decodeRows_eq_ok hdecode
  have hlen : events.length = rows.length := by
    simpa using congrArg List.length hnumbers
  have hdrop : rows = (s.rows.drop (cursor + 1 - s.oldest)).take limit := by
    rw [← hrows, rowsAfter, filter_of_numbered hkept.numbered]
  have hrange : rows.map HistoryRow.sequence =
      List.range' (s.oldest + (cursor + 1 - s.oldest)) rows.length := by
    rw [hdrop]
    exact take_of_numbered (drop_of_numbered hkept.numbered _) limit
  refine ⟨rfl, ⟨?_, ?_⟩, ?_⟩
  · rw [hnumbers, hrange, hlen, List.range'_inj]
    refine ⟨rfl, ?_⟩
    -- The first row, if there is one, is the one behind the cursor.
    cases hcons : rows with
    | nil => exact Or.inl rfl
    | cons =>
      right
      rw [hcons, List.map_cons, List.length_cons, List.range'_succ, List.cons.injEq] at hrange
      rw [← hrange.1]
      rw [hcons] at hhead
      simpa using hhead
  · intro item hitem
    obtain ⟨row, hrow, hsequence, hdecoded⟩ := hall item hitem
    have hmem : row ∈ s.rows := by
      rw [hdrop] at hrow
      exact List.mem_of_mem_drop (List.mem_of_mem_take hrow)
    obtain ⟨e, hget, -, hpayload⟩ := hkept.genuine row hmem
    have hlow := (hkept.mem_range hmem).1
    rw [hpayload] at hdecoded
    refine ⟨e, ?_, ?_, decode_payload hdecoded⟩
    · unfold HistoryStore.oldest at hlow
      omega
    · rw [← hsequence]
      exact hget
  · intro hold
    have hwithin := hkept.within
    rw [hlen, hdrop, List.length_take, List.length_drop]
    unfold HistoryStore.oldest at hold ⊢
    omega

end LifecycleHistory

/-! ## What a subscription holds of the log -/

namespace HistorySubscription

/-- The place a subscriber asks for: behind all events, or behind the latest one with the given id. -/
def StartsRight (appended : List CloudEvent) (sub : HistorySubscription) : Prop :=
  match sub.lastEventId with
  | none => sub.start = sub.opened
  | some id => 1 ≤ sub.start ∧ (∃ e, appended[sub.start - 1]? = some e ∧ e.id = id) ∧
      ∀ k e, sub.start ≤ k → k < sub.opened → appended[k]? = some e → e.id ≠ id

/-- The subscription is in step with the log. -/
structure Tracks (appended : List CloudEvent) (sub : HistorySubscription) : Prop where
  replayed : sub.replayed.map Prod.fst = List.range' (sub.start + 1) sub.replayed.length
  limited : sub.replayed.length = min sub.config.maxEvents (sub.opened - sub.start)
  received : sub.received.map Prod.fst = List.range' (sub.opened + 1) sub.received.length
  cursor : sub.cursor = sub.opened + sub.received.length
  pending : sub.pending.map Prod.fst = List.range' (sub.cursor + 1) sub.pending.length
  genuine : ∀ item ∈ sub.replayed ++ (sub.received ++ sub.pending), Genuine appended item
  started : sub.start ≤ sub.opened
  opened : sub.opened ≤ appended.length
  starts : sub.StartsRight appended

variable {appended : List CloudEvent} {sub : HistorySubscription}

theorem StartsRight.grow (h : sub.StartsRight appended) (hstart : sub.start ≤ sub.opened)
    (hle : sub.opened ≤ appended.length) (e : CloudEvent) :
    sub.StartsRight (appended ++ [e]) := by
  unfold StartsRight at h ⊢
  cases hid : sub.lastEventId with
  | none =>
    rw [hid] at h
    exact h
  | some =>
    rw [hid] at h
    obtain ⟨hpos, ⟨e₀, hget, heq⟩, hlast⟩ := h
    refine ⟨hpos, ⟨e₀, ?_, heq⟩, ?_⟩
    · rw [List.getElem?_append_left (by omega)]
      exact hget
    · intro k e' hk hlt hget'
      rw [List.getElem?_append_left (by omega)] at hget'
      exact hlast k e' hk hlt hget'

theorem Tracks.grow (h : sub.Tracks appended) (e : CloudEvent) : sub.Tracks (appended ++ [e]) where
  replayed := h.replayed
  limited := h.limited
  received := h.received
  cursor := h.cursor
  pending := h.pending
  genuine := fun item hitem => (h.genuine item hitem).grow e
  started := h.started
  opened := by
    rw [List.length_append]
    exact h.opened.trans (Nat.le_add_right _ _)
  starts := h.starts.grow h.started h.opened e

theorem Tracks.fetch {s : HistoryStore} {events : List (ℕ × CloudEvent)}
    (h : sub.Tracks s.appended) (hempty : sub.pending = [])
    (hbehind : LifecycleHistory.Behind s sub.cursor events) :
    Tracks s.appended { sub with pending := events } where
  replayed := h.replayed
  limited := h.limited
  received := h.received
  cursor := h.cursor
  pending := hbehind.numbered
  genuine := by
    intro item hitem
    rw [← List.append_assoc] at hitem
    rcases List.mem_append.mp hitem with hitem | hitem
    · exact h.genuine item (by rw [hempty, List.append_nil]; exact hitem)
    · exact hbehind.genuine item hitem
  started := h.started
  opened := h.opened
  starts := h.starts

theorem Tracks.popPending (h : sub.Tracks appended) : sub.popPending.2.Tracks appended := by
  unfold HistorySubscription.popPending
  cases hpending : sub.pending with
  | nil => exact h
  | cons item rest =>
    have hnumbers := h.pending
    rw [hpending, List.map_cons, List.length_cons, List.range'_succ, List.cons.injEq] at hnumbers
    obtain ⟨hfirst, hrest⟩ := hnumbers
    have hcursor := h.cursor
    show Tracks appended { sub with
      cursor := sub.cursor + 1, pending := rest, received := sub.received ++ [item] }
    constructor
    · exact h.replayed
    · exact h.limited
    · show (sub.received ++ [item]).map Prod.fst =
        List.range' (sub.opened + 1) (sub.received ++ [item]).length
      rw [List.map_append, h.received, List.length_append, List.length_singleton,
        List.range'_1_concat, List.map_cons, List.map_nil, hfirst, hcursor]
      congr 2
      omega
    · show sub.cursor + 1 = sub.opened + (sub.received ++ [item]).length
      rw [List.length_append, List.length_singleton]
      omega
    · exact hrest
    · intro x hx
      apply h.genuine x
      rw [hpending]
      simpa using hx
    · exact h.started
    · exact h.opened
    · exact h.starts

theorem Tracks.receive {bytes : Json → ℕ} {s : HistoryStore} (hkept : s.Kept)
    (h : sub.Tracks s.appended) : (sub.receive bytes s).2.Tracks s.appended := by
  unfold HistorySubscription.receive
  split
  · exact h
  · split
    · next hempty =>
      cases hanswer : (LifecycleHistory.checkedAfter bytes sub.config sub.cursor
          (sub.capacity + 1)).answer s with
      | error error => exact h
      | ok events =>
        obtain ⟨s', hrun⟩ := answer_eq_ok.mp hanswer
        obtain ⟨_, _, hcounter, hafter⟩ := bind_eq_ok.mp hrun
        obtain ⟨-, rfl⟩ := LifecycleHistory.checkedCounter_eq_ok hcounter
        have hfetched := h.fetch hempty (LifecycleHistory.after_behind hkept hafter).2.1
        show (fetched events sub).2.Tracks _
        unfold fetched
        split
        · exact hfetched
        · exact hfetched.popPending
    · exact h.popPending

theorem Tracks.close (h : sub.Tracks appended) : sub.close.Tracks appended :=
  ⟨h.replayed, h.limited, h.received, h.cursor, h.pending, h.genuine, h.started, h.opened, h.starts⟩

/-- The numbers of the delivered events follow each other from the start on. -/
def Contiguous (sub : HistorySubscription) : Prop :=
  sub.delivered.map Prod.fst = List.range' (sub.start + 1) sub.delivered.length

instance : Decidable sub.Contiguous := inferInstanceAs (Decidable (_ = _))

/-- The cursor stands behind every event there was, the replay behind those it was allowed to
read. -/
theorem Tracks.contiguous_iff (h : sub.Tracks appended) :
    sub.Contiguous ↔ sub.opened - sub.start ≤ sub.config.maxEvents ∨ sub.received = [] := by
  unfold Contiguous delivered
  rw [List.map_append, h.replayed, h.received, List.length_append, ← List.range'_append_1,
    List.append_cancel_left_eq, List.range'_inj]
  have hlimited := h.limited
  have hstarted := h.started
  constructor
  · rintro ⟨-, hzero | hsame⟩
    · exact Or.inr (List.length_eq_zero_iff.mp hzero)
    · left
      omega
  · rintro (hle | hnil)
    · refine ⟨rfl, Or.inr ?_⟩
      omega
    · rw [hnil]
      exact ⟨rfl, Or.inl rfl⟩

end HistorySubscription

/-! ## Runs -/

namespace LifecycleHistories

variable {bytes : Json → ℕ} {w : LifecycleHistories}

/-- The rows are the end of the log, and every subscription is in step with the log. -/
structure InStep (w : LifecycleHistories) : Prop where
  kept : w.store.Kept
  tracks : ∀ sub ∈ w.subscriptions, sub.Tracks w.store.appended

theorem inStep_initial : InStep initial :=
  ⟨⟨rfl, le_rfl, rfl, fun _ h => (by cases h), List.nodup_nil⟩, fun _ h => (by cases h)⟩

theorem startsRight_opened {s : HistoryStore} (hkept : s.Kept) {id : String} {row : HistoryRow}
    (hrow : LifecycleHistory.rowOf id s = some row) :
    1 ≤ row.sequence ∧ (∃ e, s.appended[row.sequence - 1]? = some e ∧ e.id = id) ∧
      ∀ k e, row.sequence ≤ k → k < s.counter → s.appended[k]? = some e → e.id ≠ id := by
  have hmem : row ∈ s.rows := List.mem_of_find?_eq_some hrow
  have hid : row.eventId = id := by simpa using List.find?_some hrow
  obtain ⟨hlow, hhigh⟩ := hkept.mem_range hmem
  obtain ⟨e, hget, heq, -⟩ := hkept.genuine row hmem
  refine ⟨?_, ⟨e, hget, heq.symm.trans hid⟩, ?_⟩
  · unfold HistoryStore.oldest at hlow
    omega
  · intro k e' hk hlt hget' hid'
    -- A later event with this id would have a row of its own.
    obtain ⟨row', hmem', hsequence⟩ := hkept.exists_row (k := k + 1) (by omega) hlt
    obtain ⟨e'', hget'', heq'', -⟩ := hkept.genuine row' hmem'
    rw [hsequence, Nat.add_sub_cancel, hget', Option.some.injEq] at hget''
    have hsame : row' = row := List.inj_on_of_nodup_map hkept.distinct hmem' hmem
      (by rw [heq'', ← hget'', hid', hid])
    rw [hsame] at hsequence
    omega

theorem opened_tracks {s : HistoryStore} (hkept : s.Kept) {config : HistoryConfig}
    {lastEventId : Option String} {queueSize : ℕ} {answer : List (ℕ × CloudEvent) × ℕ}
    (h : (LifecycleHistory.replay bytes config lastEventId).answer s = .ok answer) :
    (opened config lastEventId queueSize s answer).Tracks s.appended := by
  obtain ⟨s', hrun⟩ := answer_eq_ok.mp h
  simp only [LifecycleHistory.replay, run_eq_ok] at hrun
  obtain ⟨counter, _, hcounter, events, _, hevents, rfl, -⟩ := hrun
  obtain ⟨rfl, hsame⟩ := LifecycleHistory.checkedCounter_eq_ok hcounter
  rw [hsame] at hevents
  cases lastEventId with
  | none =>
    rw [LifecycleHistory.missedEvents, pure_eq_ok] at hevents
    obtain ⟨rfl, -⟩ := hevents
    exact ⟨rfl, by simp [opened, startOf], rfl, rfl, rfl, fun _ hitem => (by cases hitem), le_rfl,
      hkept.counted.le, rfl⟩
  | some id =>
    simp only [LifecycleHistory.missedEvents, LifecycleHistory.eventsBehind, run_eq_ok] at hevents
    obtain ⟨row, hfound, hafter⟩ := hevents
    obtain ⟨-, hbehind, hlength⟩ := LifecycleHistory.after_behind hkept hafter
    have hmem : row ∈ s.rows := List.mem_of_find?_eq_some hfound
    obtain ⟨hlow, hhigh⟩ := hkept.mem_range hmem
    have hstart : startOf (some id) s = row.sequence := by
      simp only [startOf, hfound, Option.map_some, Option.getD_some]
    constructor
    · show events.map Prod.fst = List.range' (startOf (some id) s + 1) events.length
      rw [hstart]
      exact hbehind.numbered
    · show events.length = min config.maxEvents (s.counter - startOf (some id) s)
      rw [hstart]
      exact hlength (by omega)
    · rfl
    · rfl
    · rfl
    · intro item hitem
      exact hbehind.genuine item (by simpa [opened] using hitem)
    · show startOf (some id) s ≤ s.counter
      rw [hstart]
      exact hhigh
    · exact hkept.counted.le
    · have hright := startsRight_opened hkept hfound
      rw [← hstart] at hright
      exact hright

theorem next_inStep (operation : Operation) (h : InStep w) : InStep (next bytes w operation) := by
  cases operation with
  | append config event =>
    refine ⟨LifecycleHistory.append_kept h.kept, fun sub hsub => ?_⟩
    have htracks := h.tracks sub hsub
    show sub.Tracks ((LifecycleHistory.append bytes config event).after w.store).appended
    rcases @LifecycleHistory.append_appended bytes config w.store event with hsame | hmore
    · rw [hsame]
      exact htracks
    · rw [hmore]
      exact htracks.grow event
  | subscribe config lastEventId queueSize =>
    show InStep (subscribe bytes config lastEventId queueSize w)
    unfold subscribe
    split
    · exact h
    · cases hanswer : (LifecycleHistory.replay bytes config lastEventId).answer w.store with
      | error => exact h
      | ok =>
        refine ⟨h.kept, fun sub hsub => ?_⟩
        rcases List.mem_append.mp hsub with hsub | hsub
        · exact h.tracks sub hsub
        · rw [List.mem_singleton] at hsub
          rw [hsub]
          exact opened_tracks h.kept hanswer
  | receive =>
    refine ⟨h.kept, fun sub' hsub' => ?_⟩
    obtain ⟨sub, hsub, rfl | rfl⟩ := mem_modify hsub'
    · exact h.tracks sub' hsub
    · exact (h.tracks sub hsub).receive h.kept
  | close =>
    refine ⟨h.kept, fun sub' hsub' => ?_⟩
    obtain ⟨sub, hsub, rfl | rfl⟩ := mem_modify hsub'
    · exact h.tracks sub' hsub
    · exact (h.tracks sub hsub).close

theorem run_inStep (operations : List Operation) : InStep (run bytes operations) := by
  unfold run
  exact List.foldlRecOn operations _ inStep_initial fun _ h operation _ => next_inStep operation h

/-- **A replay has no gap as long as the reader may read all of it.**  After any interleaving of calls
of any number of processes, a stream starts behind the event its subscriber saw last, every event it
delivered is the one appended under its number, and the numbers follow each other exactly when at most
`max_events` of the reader were appended behind the known event before the replay, or nothing has been
received since. -/
theorem history_contiguous_iff (bytes : Json → ℕ) (operations : List Operation) (i : ℕ)
    (sub : HistorySubscription) (h : (run bytes operations).subscriptions[i]? = some sub) :
    sub.StartsRight (run bytes operations).store.appended ∧
    (∀ item ∈ sub.delivered, Genuine (run bytes operations).store.appended item) ∧
    (sub.Contiguous ↔ sub.opened - sub.start ≤ sub.config.maxEvents ∨ sub.received = []) := by
  have htracks := (@run_inStep bytes operations).tracks sub (List.mem_of_getElem? h)
  refine ⟨htracks.starts, ?_, htracks.contiguous_iff⟩
  intro item hitem
  apply htracks.genuine item
  rw [← List.append_assoc]
  exact List.mem_append_left _ hitem

/-- Limits that retain the given number of events. -/
def retaining (maxEvents : ℕ) (h : 1 ≤ maxEvents ∧ maxEvents ≤ 100000) : HistoryConfig :=
  ⟨maxEvents, 65536, 16777216, h, by decide, by decide, by decide⟩

/-- An event that carries nothing but its id. -/
def bareEvent (id : String) : CloudEvent :=
  (WorkflowEvent.bare "WorkflowStarted" id).toCloudEvent ⟨"2026-01-01T00:00:00Z", "", none⟩

/-- A process that retains 1000 events appends three; one whose limit is `maxEvents` subscribes
behind the first, and receives the one that is appended next. -/
def resumedBehindFirst (maxEvents : ℕ) (h : 1 ≤ maxEvents ∧ maxEvents ≤ 100000) : List Operation :=
  let writer := retaining 1000 (by decide)
  [.append writer (bareEvent "a"), .append writer (bareEvent "b"), .append writer (bareEvent "c"),
    .subscribe (retaining maxEvents h) (some "a") 64, .append writer (bareEvent "d"), .receive 0]

theorem history_contiguous_same_limits : ∃ sub,
    (run (fun _ => 400) (resumedBehindFirst 1000 (by decide))).subscriptions[0]? = some sub ∧
      sub.delivered.map (fun item => (item.1, item.2.id)) = [(2, "b"), (3, "c"), (4, "d")] ∧
      sub.Contiguous := by
  have hseen : (run (fun _ => 400) (resumedBehindFirst 1000 (by decide))).subscriptions[0]?.map
      (fun sub => (sub.delivered.map (fun item => (item.1, item.2.id)), sub.opened, sub.start,
        sub.config.maxEvents)) = some ([(2, "b"), (3, "c"), (4, "d")], 3, 1, 1000) := by
    decide +kernel
  obtain ⟨sub, hsub, htuple⟩ := Option.map_eq_some_iff.mp hseen
  simp only [Prod.mk.injEq] at htuple
  obtain ⟨hdelivered, hopened, hstart, hlimit⟩ := htuple
  refine ⟨sub, hsub, hdelivered, (history_contiguous_iff _ _ 0 sub hsub).2.2.mpr (Or.inl ?_)⟩
  omega

/-- The third event is retained, and the reader is not told that it got only one of the two behind
the first. -/
theorem history_gap_after_short_replay :
    (run (fun _ => 400) (resumedBehindFirst 1 (by decide))).store.rows.map
      (fun row => (row.sequence, row.eventId)) = [(1, "a"), (2, "b"), (3, "c"), (4, "d")] ∧
    (run (fun _ => 400) (resumedBehindFirst 1 (by decide))).subscriptions.map
      (fun sub => (sub.delivered.map (fun item => (item.1, item.2.id)), decide sub.Contiguous)) =
        [([(2, "b"), (4, "d")], false)] := by
  decide +kernel

end LifecycleHistories
