/-
# Lifecycle events

`observability.py`: what the runtime reports about executions.  A `WorkflowEvent` is turned into a
`CloudEvent` that carries only the common identifiers, the safe part of the progress, and the code of
an error.
-/
import OpenWorkflowAgent.EventEnvelopes

/-- `WorkflowEvent`. -/
structure WorkflowEvent where
  eventType : String
  invocationId : Option String
  sessionId : Option String
  workflowName : Option String
  workflowVersion : Option String
  taskName : Option String
  taskReference : Option String
  engine : Option String
  operationId : Option String
  executionId : Option String
  parentInvocationId : Option String
  parentTaskReference : Option String
  eventId : String
  eventName : Option String
  duration : Option ℚ
  status : Option String
  attempt : Option ℤ
  progress : Option Properties
  reason : Option String
  error : Option Properties
  deriving DecidableEq

/-- `CloudEvent`: the structured JSON representation. -/
structure CloudEvent where
  specversion : String
  id : String
  source : String
  type : String
  subject : Option String
  time : String
  datacontenttype : String
  dataschema : String
  data : Properties
  traceparent : Option String
  deriving DecidableEq

namespace CloudEvent

/-- `CLOUD_EVENTS_SPECVERSION`. -/
def specversion10 : String := "1.0"

def lifecycleSource : String := "urn:open-workflow-agent:lifecycle"

/-- `LIFECYCLE_CLOUD_EVENT_SCHEMA`. -/
def lifecycleSchema : String := "urn:open-workflow-agent:schema:lifecycle:1"

/-- The content type of every lifecycle event. -/
def jsonContent : String := "application/json"

/-- `as_dict`. -/
def asDict (e : CloudEvent) : Properties :=
  [("specversion", .str e.specversion), ("id", .str e.id), ("source", .str e.source),
    ("type", .str e.type), ("time", .str e.time), ("datacontenttype", .str e.datacontenttype),
    ("dataschema", .str e.dataschema), ("data", .obj e.data)] ++
    (optionalField "subject" e.subject ++ optionalField "traceparent" e.traceparent)

end CloudEvent

/-- `_cloud_event_type`: a dot before every capital but the first character, then lower case. -/
def cloudEventType (eventType : String) : String :=
  match eventType.toList with
  | [] => ""
  | c :: cs => String.ofList
      ((c :: cs.flatMap fun d => if 'A' ≤ d ∧ d ≤ 'Z' then ['.', d] else [d]).map Char.toLower)

def lifecycleType (eventType : String) : String :=
  "com.openworkflow.agent.lifecycle." ++ cloudEventType eventType ++ ".v1"

/-- `_SAFE_PROGRESS_FIELDS`. -/
def safeProgressFields : List String := ["phase", "completed", "total"]

/-- `isinstance(value, (bool, int, float, str))`. -/
def Json.isScalar : Json → Bool
  | .bool _ | .int _ | .float _ | .str _ => true
  | _ => false

/-- What a call of `to_cloud_event` brings from outside: the text of the current time, a fresh
`uuid4`, and the current trace context. -/
structure LifecycleMoment where
  time : String
  uuid : String
  traceparent : Option String

namespace WorkflowEvent

def identifiers (e : WorkflowEvent) : Properties :=
  optionalField "invocation_id" e.invocationId ++ optionalField "session_id" e.sessionId ++
    optionalField "workflow_name" e.workflowName ++
    optionalField "workflow_version" e.workflowVersion ++ optionalField "task_name" e.taskName ++
    optionalField "task_reference" e.taskReference ++ optionalField "engine" e.engine ++
    optionalField "operation_id" e.operationId ++ optionalField "execution_id" e.executionId ++
    optionalField "parent_invocation_id" e.parentInvocationId ++
    optionalField "parent_task_reference" e.parentTaskReference ++
    optionalField "event_name" e.eventName ++
    (e.duration.map fun d => ("duration", Json.float d)).toList ++
    optionalField "status" e.status ++
    (e.attempt.map fun n => ("attempt", Json.int n)).toList ++ optionalField "reason" e.reason

/-- The progress that is passed on: the safe fields with a scalar value. -/
def safeProgress (e : WorkflowEvent) : Properties :=
  match (e.progress.getD []).filter fun f => f.1 ∈ safeProgressFields ∧ f.2.isScalar with
  | [] => []
  | fields => [("progress", .obj fields)]

/-- `self.error.get("code")`, where there is an error. -/
def errorCode (e : WorkflowEvent) : Option Json := e.error.map fun error => Properties.get error "code"

/-- The error that is passed on: its code. -/
def safeError (e : WorkflowEvent) : Properties :=
  match e.errorCode with
  | some (.str code) => [("error", .obj [("code", .str code)])]
  | _ => []

/-- `self.event_id or str(uuid4())`. -/
def idOr (e : WorkflowEvent) (uuid : String) : String :=
  if e.eventId = "" then uuid else e.eventId

/-- The first of `invocation_id`, `task_reference` and `workflow_name` that is not empty, as `or`
finds it. -/
def subject (e : WorkflowEvent) : Option String :=
  if (e.invocationId.getD "") ≠ "" then e.invocationId
  else if (e.taskReference.getD "") ≠ "" then e.taskReference
  else e.workflowName

/-- `to_cloud_event`. -/
def toCloudEvent (e : WorkflowEvent) (m : LifecycleMoment) : CloudEvent where
  specversion := CloudEvent.specversion10
  id := e.idOr m.uuid
  source := CloudEvent.lifecycleSource
  type := lifecycleType e.eventType
  subject := e.subject
  time := m.time
  datacontenttype := CloudEvent.jsonContent
  dataschema := CloudEvent.lifecycleSchema
  data := [("event_id", .str (e.idOr m.uuid)), ("event_type", .str e.eventType)] ++
    (e.identifiers ++ (e.safeProgress ++ e.safeError))
  traceparent := m.traceparent

/-- The failure of a sandbox execution that was cancelled is reported as a cancellation. -/
def normalized (e : WorkflowEvent) : WorkflowEvent :=
  if e.eventType = "SandboxExecutionFailed" ∧ e.errorCode = some (.str "invocation_cancelled") then
    { e with eventType := "SandboxExecutionCancelled", status := some "cancelled",
             reason := some "cancelled" }
  else e

def bare (eventType id : String) : WorkflowEvent :=
  ⟨eventType, none, none, none, none, none, none, none, none, none, none, none, id, none, none, none,
    none, none, none, none⟩

end WorkflowEvent

/-- What is in a list after one of its elements was changed. -/
theorem mem_modify {α : Type} {l : List α} {i : ℕ} {f : α → α} {y : α} (h : y ∈ l.modify i f) :
    ∃ x ∈ l, y = x ∨ y = f x := by
  obtain ⟨j, hj, hget⟩ := List.getElem_of_mem h
  have hlt : j < l.length := by
    simpa only [List.length_modify] using hj
  refine ⟨l[j], List.getElem_mem hlt, ?_⟩
  rw [List.getElem_modify] at hget
  split at hget
  · exact Or.inr hget.symm
  · exact Or.inl hget.symm

/-! ## Lists with consecutive numbers -/

section Numbered

variable {α : Type} {f : α → ℕ} {l : List α} {a n : ℕ}

/-- What is left of consecutive numbers from a bound on is left at the end. -/
theorem filter_of_numbered (h : l.map f = List.range' a n) (bound : ℕ) :
    l.filter (fun x => bound ≤ f x) = l.drop (bound - a) := by
  induction l generalizing a n with
  | nil => simp
  | cons _ _ ih =>
    cases n with
    | zero => cases h
    | succ =>
      rw [List.map_cons, List.range'_succ, List.cons.injEq] at h
      obtain ⟨hx, hl⟩ := h
      have hrest := ih hl
      rw [List.filter_cons, hx]
      by_cases hbound : bound ≤ a
      · rw [if_pos (decide_eq_true hbound), hrest, Nat.sub_eq_zero_of_le hbound,
          Nat.sub_eq_zero_of_le (by omega), List.drop_zero, List.drop_zero]
      · rw [if_neg (by simpa using hbound), hrest,
          show bound - a = (bound - (a + 1)) + 1 from by omega, List.drop_succ_cons]

theorem length_of_numbered (h : l.map f = List.range' a n) : l.length = n := by
  simpa using congrArg List.length h

theorem drop_of_numbered (h : l.map f = List.range' a n) (k : ℕ) :
    (l.drop k).map f = List.range' (a + k) (l.drop k).length := by
  rw [List.map_drop, h, List.drop_range', Nat.mul_one, List.length_drop, length_of_numbered h]

theorem take_of_numbered (h : l.map f = List.range' a n) (k : ℕ) :
    (l.take k).map f = List.range' a (l.take k).length := by
  rw [List.map_take, h, List.length_take, length_of_numbered h]
  exact List.ext_getElem (by simp) (by simp)

end Numbered
