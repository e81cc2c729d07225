/-
# Native observation logs

`NativeStreamLog` and `NativeStreamSubscription` of `native_streams.py`: the frames that one
invocation publishes, a bounded window of the latest of them, and a bounded queue per subscriber.

A subscription ends in two ways.  `_end` empties its queue and leaves the reason in it, and
`_finish` lets it hand out what is queued, and leaves a reason only in an empty queue.  After
either no frame is put into the queue any more, also when the log is restarted.

Beside its state the log carries all frames it has appended, and a subscription what it has been
given, backlog first.  `Follows` says that this and what is queued is one run of the log.
-/
import OpenWorkflowAgent.LifecycleEvents

open Transaction

/-- `NativeStreamLimits`; `__post_init__` refuses any other value. -/
structure NativeStreamLimits where
  maxEvents : ℕ
  maxBytes : ℕ
  maxEventBytes : ℕ
  maxSubscribers : ℕ
  queueSize : ℕ
  maxEvents_range : 1 ≤ maxEvents ∧ maxEvents ≤ 1000
  maxBytes_range : 1 ≤ maxBytes ∧ maxBytes ≤ 16777216
  maxEventBytes_range : 256 ≤ maxEventBytes ∧ maxEventBytes ≤ maxBytes ∧ maxEventBytes ≤ 262144
  maxSubscribers_range : 1 ≤ maxSubscribers ∧ maxSubscribers ≤ 128
  queueSize_range : 1 ≤ queueSize ∧ queueSize ≤ 1000

/-- `NativeStreamFrame`. -/
structure NativeStreamFrame where
  eventId : String
  payload : String

/-- Why an execution pauses or is over. -/
inductive FinishReason where
  | waiting
  | completed
  | faulted
  | cancelled
  | interrupted

/-- The failures of `fail`. -/
inductive ProjectionFailure where
  | frameLimit
  | projectionFailure

def ProjectionFailure.text : ProjectionFailure → String
  | .frameLimit => "frame_limit"
  | .projectionFailure => "projection_failure"

/-- The texts that stand for the end of a stream in a queue. -/
inductive EndMark where
  | overflow
  | failure (reason : ProjectionFailure)
  | closed
  | finished (reason : FinishReason)

inductive NativeItem where
  | frame (frame : NativeStreamFrame)
  | mark (mark : EndMark)

namespace NativeItem

def frame? : NativeItem → Option NativeStreamFrame
  | frame f => some f
  | mark _ => none

end NativeItem

/-! ## Subscriptions -/

/-- `NativeStreamSubscription`: one that is not closed is in `_subscribers`.  `cursor` is the place
it asked for; `start`, `delivered` and `ended` record where its stream begins, what it was given,
and that it has seen the end. -/
structure NativeSubscription where
  queue : List NativeItem
  closed : Bool
  finishedReason : Option FinishReason
  cursor : Option ℕ
  start : ℕ
  delivered : List NativeStreamFrame
  ended : Bool

/-- What a call of `receive` ends with: a frame, `BufferError`, `EOFError` or `TimeoutError`. -/
inductive NativeReception where
  | frame (frame : NativeStreamFrame)
  | unavailable (mark : EndMark)
  | eof
  | timeout

namespace NativeSubscription

/-- `_end`. -/
def terminate (mark : EndMark) (sub : NativeSubscription) : NativeSubscription :=
  if sub.closed then sub else { sub with closed := true, queue := [.mark mark] }

/-- `_finish`, of a subscription in `_subscribers`. -/
def finish (reason : FinishReason) (sub : NativeSubscription) : NativeSubscription :=
  if sub.closed then sub
  else { sub with
    finishedReason := some reason
    queue := if sub.queue.isEmpty then [.mark (.finished reason)] else sub.queue }

/-- What `append` does with a subscription. -/
def offer (queueSize : ℕ) (frame : NativeStreamFrame) (sub : NativeSubscription) :
    NativeSubscription :=
  if sub.closed || sub.finishedReason.isSome then sub
  else if sub.queue.length < queueSize then { sub with queue := sub.queue ++ [.frame frame] }
  else sub.terminate .overflow

/-- What a mark is raised as. -/
def reception : EndMark → NativeReception
  | .overflow => .unavailable .overflow
  | .failure reason => .unavailable (.failure reason)
  | .closed | .finished _ => .eof

/-- `receive`, at the moment its `get` is done or times out. -/
def receive (sub : NativeSubscription) : NativeReception × NativeSubscription :=
  match sub.queue with
  | [] =>
    if sub.finishedReason.isSome || sub.closed then (.eof, { sub with ended := true })
    else (.timeout, sub)
  | .mark mark :: rest => (reception mark, { sub with queue := rest, ended := true })
  | .frame frame :: rest =>
    (.frame frame, { sub with queue := rest, delivered := sub.delivered ++ [frame] })

end NativeSubscription

/-! ## The log -/

/-- A log: its sequence, the window with its bytes, and its flags; and all that it has appended. -/
structure NativeStreamLog where
  sequence : ℕ
  events : List (ℕ × NativeStreamFrame)
  bytes : ℕ
  subscriptions : List NativeSubscription
  closed : Bool
  failure : Option ProjectionFailure
  finishedReason : Option FinishReason
  appended : List (ℕ × NativeStreamFrame)

inductive NativeStreamMode where
  | values
  | updates
  deriving DecidableEq

/-- The arguments of `append`. -/
structure Observation where
  mode : NativeStreamMode
  data : Json
  scope : Option String
  taskReference : Option String

namespace NativeStreamLog

variable (limits : NativeStreamLimits) (epoch invocationId : String) (text : Json → String)

def initial : NativeStreamLog := ⟨0, [], 0, [], false, none, none, []⟩

def size (events : List (ℕ × NativeStreamFrame)) : ℕ :=
  (events.map fun event => event.2.payload.utf8ByteSize).sum

def referenceValid (reference : String) : Bool :=
  (reference = "/do" ∨ "/do/".toList <+: reference.toList) ∧ reference.utf8ByteSize ≤ 4096

def modeText : NativeStreamMode → String
  | .values => "values"
  | .updates => "updates"

/-- The frame of an observation; `text` is `json.dumps` without blanks. -/
def frameOf (sequence : ℕ) (o : Observation) : NativeStreamFrame :=
  let eventId := epoch ++ ":" ++ toString sequence
  let reference := fun (r : Option String) => (r.map Json.str).getD .null
  ⟨eventId, text (.obj [("schema", .str "owa/native-observation/v1"), ("id", .str eventId),
    ("invocation_id", .str invocationId), ("mode", .str (modeText o.mode)),
    ("scope", reference o.scope), ("task_reference", reference o.taskReference),
    ("data", o.data)])⟩

def evict : List (ℕ × NativeStreamFrame) → ℕ → List (ℕ × NativeStreamFrame) × ℕ
  | [], bytes => ([], bytes)
  | event :: rest, bytes =>
    if limits.maxEvents < (event :: rest).length ∨ limits.maxBytes < bytes then
      evict rest (bytes - event.2.payload.utf8ByteSize)
    else (event :: rest, bytes)

/-- `append` past its checks. -/
def push (frame : NativeStreamFrame) (s : NativeStreamLog) : NativeStreamLog :=
  let event := (s.sequence + 1, frame)
  let window := evict limits (s.events ++ [event]) (s.bytes + frame.payload.utf8ByteSize)
  { s with
    sequence := s.sequence + 1
    events := window.1
    bytes := window.2
    subscriptions := s.subscriptions.map (NativeSubscription.offer limits.queueSize frame)
    appended := s.appended ++ [event] }

/-- `append`. -/
def append (o : Observation) : Transaction OwaError NativeStreamLog NativeStreamFrame := do
  let ended ← read fun s => s.closed || s.finishedReason.isSome
  raiseIf ended (OwaError.plain .runtimeError "native observation log is closed")
  raiseIf (¬ ∀ reference ∈ o.scope.toList ++ o.taskReference.toList, referenceValid reference)
    (OwaError.plain .valueError "native observation task reference is invalid")
  raiseIf (o.scope = none ∨ (o.mode = .updates ∧ o.taskReference = none)) (OwaError.plain .valueError
    "native observation requires its public scope/task reference")
  raiseIf (o.data.valid = false) invalidExpressionData
  let sequence ← read NativeStreamLog.sequence
  let frame := frameOf epoch invocationId text (sequence + 1) o
  raiseIf (limits.maxEventBytes < frame.payload.utf8ByteSize)
    (OwaError.plain .valueError "native observation exceeds its frame byte budget")
  write (push limits frame)
  return frame

/-- The sequence in the text of a cursor; an epoch has no colon. -/
def sequenceOf (eventId : String) : Option ℕ :=
  let digits := eventId.toList.drop (epoch.length + 1)
  if eventId.length ≤ 64 ∧ (epoch ++ ":").toList <+: eventId.toList ∧ digits ≠ [] ∧
      digits.all Char.isDigit ∧ digits.head? ≠ some '0' then some (Nat.ofDigitChars 10 digits 0)
  else none

def first (s : NativeStreamLog) : ℕ := (s.events.head?.map Prod.fst).getD (s.sequence + 1)

/-- `_cursor`. -/
def cursor (eventId : String) (s : NativeStreamLog) : Option ℕ :=
  (sequenceOf epoch eventId).filter fun sequence =>
    max 1 (s.first - 1) ≤ sequence ∧ sequence ≤ s.sequence

/-- The place of a subscriber, if it asks for one. -/
def place (lastEventId : Option String) (s : NativeStreamLog) : Option (Option ℕ) :=
  match lastEventId with
  | none => some none
  | some eventId => (cursor epoch eventId s).map some

def backlog (at? : Option ℕ) (s : NativeStreamLog) : List NativeStreamFrame :=
  (s.events.filter fun event => at?.getD 0 < event.1).map Prod.snd

/-- A new subscription; one to a finished log is finished. -/
def admitted (at? : Option ℕ) (s : NativeStreamLog) : NativeSubscription :=
  let sub : NativeSubscription := ⟨[], false, none, at?, s.sequence - (backlog at? s).length,
    backlog at? s, false⟩
  match s.finishedReason with
  | none => sub
  | some reason => sub.finish reason

/-- `subscribe`. -/
def subscribe (lastEventId : Option String) :
    Transaction OwaError NativeStreamLog (List NativeStreamFrame × ℕ) := do
  let failure ← read NativeStreamLog.failure
  raiseIf failure.isSome (OwaError.plain .bufferError
    ("native observation is unavailable: " ++ (failure.map ProjectionFailure.text).getD ""))
  let closed ← read NativeStreamLog.closed
  raiseIf closed (OwaError.plain .runtimeError "native observation log is closed")
  let found ← read (place epoch lastEventId)
  let at? ← orRaise found (OwaError.plain .lookupError "native observation replay is unavailable")
  let open_ ← read fun s => s.subscriptions.countP fun sub => !sub.closed
  raiseIf (limits.maxSubscribers ≤ open_)
    (OwaError.plain .runtimeError "native observation subscriber capacity is exhausted")
  let frames ← read (backlog at?)
  let index ← read fun s => s.subscriptions.length
  write fun s => { s with subscriptions := s.subscriptions ++ [admitted at? s] }
  return (frames, index)

/-- `restart`. -/
def restart : Transaction OwaError NativeStreamLog Unit := do
  let closed ← read NativeStreamLog.closed
  raiseIf closed (OwaError.plain .runtimeError "native observation log is closed")
  write fun s => { s with finishedReason := none }

/-- `finish`. -/
def finish (reason : FinishReason) (s : NativeStreamLog) : NativeStreamLog :=
  { s with
    finishedReason := some reason
    subscriptions := s.subscriptions.map (NativeSubscription.finish reason) }

/-- `close`. -/
def close (s : NativeStreamLog) : NativeStreamLog :=
  if s.closed then s
  else { s with
    closed := true
    subscriptions := s.subscriptions.map (NativeSubscription.terminate .closed)
    events := []
    bytes := 0 }

/-- `fail`. -/
def fail (reason : ProjectionFailure) (s : NativeStreamLog) : NativeStreamLog :=
  if s.closed then s
  else close { s with
    failure := some reason
    subscriptions := s.subscriptions.map (NativeSubscription.terminate (.failure reason)) }

/-- A call of the log or of one of its subscriptions. -/
inductive Operation where
  | append (o : Observation)
  | subscribe (lastEventId : Option String)
  | receive (i : ℕ)
  | closeSubscription (i : ℕ)
  | finish (reason : FinishReason)
  | restart
  | fail (reason : ProjectionFailure)
  | close

def next (s : NativeStreamLog) : Operation → NativeStreamLog
  | .append o => (append limits epoch invocationId text o).after s
  | .subscribe lastEventId => (subscribe limits epoch lastEventId).after s
  | .receive i => { s with subscriptions := s.subscriptions.modify i fun sub => sub.receive.2 }
  | .closeSubscription i =>
    { s with subscriptions := s.subscriptions.modify i (NativeSubscription.terminate .closed) }
  | .finish reason => finish reason s
  | .restart => restart.after s
  | .fail reason => fail reason s
  | .close => close s

/-- The log after any interleaving of calls. -/
def run (operations : List Operation) : NativeStreamLog :=
  operations.foldl (next limits epoch invocationId text) initial

end NativeStreamLog

/-! ## What a subscription holds of the log -/

namespace NativeSubscription

/-- Frames are still put into the queue. -/
def Active (sub : NativeSubscription) : Prop := sub.closed = false ∧ sub.finishedReason = none

def pending (sub : NativeSubscription) : List NativeStreamFrame :=
  sub.queue.filterMap NativeItem.frame?

structure Follows (log : List NativeStreamFrame) (sub : NativeSubscription) : Prop where
  within : sub.delivered ++ sub.pending <+: log.drop sub.start
  current : sub.Active → sub.delivered ++ sub.pending = log.drop sub.start
  /-- A mark is the only item of its queue, and only a stream that is over has one. -/
  marked : ∀ mark, .mark mark ∈ sub.queue → sub.pending = [] ∧ ¬ sub.Active
  finished : sub.ended = true → sub.pending = [] ∧ ¬ sub.Active
  started : sub.start ≤ log.length
  asked : ∀ n, sub.cursor = some n → sub.start = n

variable {log : List NativeStreamFrame} {sub : NativeSubscription}

section

variable (h : Follows log sub)

include h

theorem Follows.terminate (mark : EndMark) : Follows log (sub.terminate mark) := by
  unfold NativeSubscription.terminate
  split
  · exact h
  · have hinactive : ¬ ({ sub with closed := true, queue := [.mark mark] } :
        NativeSubscription).Active := fun ha => by cases ha.1
    refine ⟨?_, fun ha => absurd ha hinactive, fun _ _ => ⟨rfl, hinactive⟩,
      fun _ => ⟨rfl, hinactive⟩, h.started, h.asked⟩
    -- what was queued is gone
    show sub.delivered ++ [] <+: _
    rw [List.append_nil]
    exact (List.prefix_append _ _).trans h.within

theorem Follows.finish (reason : FinishReason) : Follows log (sub.finish reason) := by
  unfold NativeSubscription.finish
  split
  · exact h
  · have hpending : ({ sub with
        finishedReason := some reason
        queue := if sub.queue.isEmpty then [.mark (.finished reason)] else sub.queue } :
          NativeSubscription).pending = sub.pending := by
      unfold pending
      cases sub.queue <;> rfl
    refine ⟨hpending ▸ h.within, fun ha => (by cases ha.2), fun mark hmark => ?_,
      fun hended => ⟨hpending ▸ (h.finished hended).1, fun ha => (by cases ha.2)⟩, h.started, h.asked⟩
    refine ⟨?_, fun ha => (by cases ha.2)⟩
    rw [hpending]
    cases hqueue : sub.queue with
    | nil => simp [pending, hqueue]
    | cons =>
      rw [hqueue] at hmark
      exact (h.marked mark (hqueue ▸ hmark)).1

theorem Follows.grow (frame : NativeStreamFrame) (hover : ¬ sub.Active) :
    Follows (log ++ [frame]) sub := by
  have hdrop : (log ++ [frame]).drop sub.start = log.drop sub.start ++ [frame] :=
    List.drop_append_of_le_length h.started
  refine ⟨hdrop ▸ h.within.trans (List.prefix_append _ _), fun ha => absurd ha hover, h.marked,
    h.finished, ?_, h.asked⟩
  rw [List.length_append]
  exact h.started.trans (Nat.le_add_right _ _)

theorem Follows.offer (queueSize : ℕ) (frame : NativeStreamFrame) :
    Follows (log ++ [frame]) (sub.offer queueSize frame) := by
  unfold NativeSubscription.offer
  split
  · rename_i hover
    refine h.grow frame fun ha => ?_
    simp [ha.1, ha.2] at hover
  · rename_i hactive
    have ha : sub.Active := by
      simpa only [Active, Bool.or_eq_true, not_or, Bool.not_eq_true, Option.isSome_eq_false_iff,
        Option.isNone_iff_eq_none] using hactive
    split
    · have hdrop : (log ++ [frame]).drop sub.start = log.drop sub.start ++ [frame] :=
        List.drop_append_of_le_length h.started
      have hall : sub.delivered ++
          ({ sub with queue := sub.queue ++ [.frame frame] } : NativeSubscription).pending =
          (log ++ [frame]).drop sub.start := by
        rw [hdrop, ← h.current ha, List.append_assoc]
        simp [pending, NativeItem.frame?]
      refine ⟨hall ▸ List.prefix_refl _, fun _ => hall, fun mark hmark => ?_,
        fun hended => absurd ha (h.finished hended).2, ?_, h.asked⟩
      · rcases List.mem_append.mp hmark with hmark | hmark
        · exact absurd ha (h.marked mark hmark).2
        · cases List.mem_singleton.mp hmark
      · rw [List.length_append]
        exact h.started.trans (Nat.le_add_right _ _)
    · have hterminated := h.terminate .overflow
      refine hterminated.grow frame fun hstill => ?_
      unfold NativeSubscription.terminate at hstill
      rw [ha.1] at hstill
      cases hstill.1

theorem Follows.receive : Follows log sub.receive.2 := by
  unfold NativeSubscription.receive
  split
  · rename_i hqueue
    split
    · rename_i hover
      refine ⟨h.within, h.current, h.marked, fun _ => ⟨?_, fun ha => ?_⟩, h.started, h.asked⟩
      · simp [pending, hqueue]
      · have ha' : sub.Active := ha
        simp [ha'.1, ha'.2] at hover
    · exact h
  · rename_i mark rest hqueue
    obtain ⟨hnone, hover⟩ := h.marked mark (hqueue ▸ List.mem_cons_self)
    have hpending : rest.filterMap NativeItem.frame? = [] := by
      simpa [pending, hqueue, NativeItem.frame?] using hnone
    have hwithin := h.within
    rw [hnone] at hwithin
    refine ⟨?_, fun ha => absurd ha hover, fun _ _ => ⟨hpending, hover⟩,
      fun _ => ⟨hpending, hover⟩, h.started, h.asked⟩
    show sub.delivered ++ rest.filterMap NativeItem.frame? <+: _
    rw [hpending]
    exact hwithin
  · rename_i frame rest hqueue
    have hpending : sub.pending = frame :: rest.filterMap NativeItem.frame? := by
      simp [pending, hqueue, NativeItem.frame?]
    have hsame : (sub.delivered ++ [frame]) ++ rest.filterMap NativeItem.frame? =
        sub.delivered ++ sub.pending := by
      rw [hpending]
      simp
    refine ⟨hsame ▸ h.within, fun ha => hsame ▸ h.current ha, fun mark hmark => ?_,
      fun hended => ?_, h.started, h.asked⟩
    · have := (h.marked mark (hqueue ▸ List.mem_cons_of_mem _ hmark)).1
      cases hpending.symm.trans this
    · cases hpending.symm.trans (h.finished hended).1

theorem Follows.no_frame (hended : sub.ended = true) (frame : NativeStreamFrame) :
    sub.receive.1 ≠ .frame frame := by
  have hnone := (h.finished hended).1
  unfold NativeSubscription.receive
  split
  · split <;> exact fun h => by cases h
  · rename_i mark rest hqueue
    cases mark <;> exact fun h => by cases h
  · rename_i frame' rest hqueue
    simp [pending, hqueue, NativeItem.frame?] at hnone

end

end NativeSubscription

/-! ## The invariant of the log -/

namespace NativeStreamLog

variable {limits : NativeStreamLimits} {epoch invocationId : String} {text : Json → String}
  {s : NativeStreamLog}

/-- The window is the end of what was appended, within the limits. -/
structure Retains (limits : NativeStreamLimits) (s : NativeStreamLog) : Prop where
  numbered : s.appended.map Prod.fst = List.range' 1 s.sequence
  retained : s.events <:+ s.appended
  bytes : s.bytes = size s.events
  count_le : s.events.length ≤ limits.maxEvents
  bytes_le : s.bytes ≤ limits.maxBytes

def frames (s : NativeStreamLog) : List NativeStreamFrame := s.appended.map Prod.snd

structure InStep (limits : NativeStreamLimits) (s : NativeStreamLog) : Prop where
  retains : Retains limits s
  follows : ∀ sub ∈ s.subscriptions, sub.Follows s.frames

variable (limits) in
theorem evict_spec (events : List (ℕ × NativeStreamFrame)) :
    (evict limits events (size events)).1 <:+ events ∧
      (evict limits events (size events)).2 = size (evict limits events (size events)).1 ∧
      (evict limits events (size events)).1.length ≤ limits.maxEvents ∧
      (evict limits events (size events)).2 ≤ limits.maxBytes := by
  induction events with
  | nil => exact ⟨List.suffix_refl _, rfl, Nat.zero_le _, Nat.zero_le _⟩
  | cons event rest ih =>
    unfold evict
    split
    · have hsize : size (event :: rest) - event.2.payload.utf8ByteSize = size rest := by
        simp [size]
      rw [hsize]
      exact ⟨ih.1.trans (List.suffix_cons _ _), ih.2⟩
    · rename_i hfits
      rw [not_or, not_lt, not_lt] at hfits
      exact ⟨List.suffix_refl _, rfl, hfits⟩

section

variable (h : Retains limits s)

include h

theorem Retains.length : s.appended.length = s.sequence := length_of_numbered h.numbered

theorem push_retains (frame : NativeStreamFrame) : Retains limits (push limits frame s) := by
  have hbytes : s.bytes + frame.payload.utf8ByteSize =
      size (s.events ++ [(s.sequence + 1, frame)]) := by
    simp [size, h.bytes]
  have hspec := evict_spec limits (s.events ++ [(s.sequence + 1, frame)])
  rw [← hbytes] at hspec
  obtain ⟨hsuffix, hsize, hcount, hmax⟩ := hspec
  refine ⟨?_, hsuffix.trans ?_, hsize, hcount, hmax⟩
  · show (s.appended ++ [_]).map Prod.fst = List.range' 1 (s.sequence + 1)
    rw [List.map_append, h.numbered, List.range'_concat]
    simp [Nat.add_comm]
  · obtain ⟨evicted, heq⟩ := h.retained
    refine ⟨evicted, ?_⟩
    show _ = s.appended ++ _
    rw [← heq, List.append_assoc]

theorem Retains.events_eq : s.events = s.appended.drop (s.sequence - s.events.length) := by
  have := List.suffix_iff_eq_drop.mp h.retained
  rwa [h.length] at this

theorem Retains.length_le : s.events.length ≤ s.sequence :=
  h.length ▸ h.retained.length_le

theorem Retains.events_numbered : s.events.map Prod.fst =
    List.range' (s.sequence - s.events.length + 1) s.events.length := by
  have := drop_of_numbered h.numbered (s.sequence - s.events.length)
  rwa [← h.events_eq, Nat.add_comm] at this

theorem Retains.first_eq : s.first = s.sequence - s.events.length + 1 := by
  rw [first, ← List.head?_map, h.events_numbered, List.head?_range']
  split
  · next hempty => rw [hempty, Nat.sub_zero, Option.getD_none]
  · rfl

theorem Retains.filter_events {n : ℕ} (hn : s.sequence - s.events.length ≤ n) :
    (s.events.filter fun event => n < event.1) = s.appended.drop n := by
  have hwindow := filter_of_numbered h.events_numbered (n + 1)
  rw [Nat.add_sub_add_right] at hwindow
  refine hwindow.trans ?_
  conv_lhs => arg 2; rw [h.events_eq]
  rw [List.drop_drop, Nat.add_sub_cancel' hn]

/-- A backlog is the log from the place its subscriber asked for. -/
theorem Retains.backlog_eq {lastEventId : Option String} {at? : Option ℕ}
    (hplace : place epoch lastEventId s = some at?) :
    ∃ n ≤ s.sequence, backlog at? s = s.frames.drop n ∧ ∀ m, at? = some m → n = m := by
  have hle := h.length_le
  cases lastEventId with
  | none =>
    obtain rfl := Option.some.inj hplace
    refine ⟨s.sequence - s.events.length, Nat.sub_le _ _, ?_, fun m hm => by cases hm⟩
    have hall := filter_of_numbered h.events_numbered 1
    rw [Nat.sub_eq_zero_of_le (Nat.le_add_left 1 _), List.drop_zero] at hall
    show (s.events.filter fun event => 1 ≤ event.1).map Prod.snd = _
    rw [hall, frames, ← List.map_drop, ← h.events_eq]
  | some =>
    simp only [place, cursor, Option.map_eq_some_iff, Option.filter_eq_some_iff,
      decide_eq_true_eq] at hplace
    obtain ⟨n, ⟨-, hlow, hhigh⟩, rfl⟩ := hplace
    rw [h.first_eq] at hlow
    refine ⟨n, hhigh, ?_, fun m hm => Option.some.inj hm⟩
    show (s.events.filter fun event => n < event.1).map Prod.snd = _
    rw [h.filter_events (by omega), frames, List.map_drop]

end

theorem InStep.admitted (h : InStep limits s) {lastEventId : Option String} {at? : Option ℕ}
    (hplace : place epoch lastEventId s = some at?) : (admitted at? s).Follows s.frames := by
  obtain ⟨n, hn, hbacklog, hasked⟩ := h.retains.backlog_eq hplace
  have hlength : s.frames.length = s.sequence := by rw [frames, List.length_map, h.retains.length]
  have hstart : s.sequence - (backlog at? s).length = n := by
    rw [hbacklog, List.length_drop, hlength]
    omega
  have hwhole : backlog at? s ++ [] = s.frames.drop (s.sequence - (backlog at? s).length) := by
    rw [hstart, hbacklog, List.append_nil]
  have hnew : NativeSubscription.Follows s.frames ⟨[], false, none, at?,
      s.sequence - (backlog at? s).length, backlog at? s, false⟩ :=
    ⟨hwhole ▸ List.prefix_refl _, fun _ => hwhole, fun _ hmark => (by cases hmark),
      fun hended => (by cases hended), hlength ▸ Nat.sub_le _ _,
      fun m hm => hstart.trans (hasked m hm)⟩
  unfold NativeStreamLog.admitted
  cases s.finishedReason with
  | none => exact hnew
  | some reason => exact hnew.finish reason

theorem InStep.map (h : InStep limits s) {f : NativeSubscription → NativeSubscription}
    (hf : ∀ sub, sub.Follows s.frames → (f sub).Follows s.frames) :
    ∀ sub ∈ s.subscriptions.map f, sub.Follows s.frames := by
  intro sub' hmem
  obtain ⟨sub, hsub, rfl⟩ := List.mem_map.mp hmem
  exact hf sub (h.follows sub hsub)

theorem InStep.close (h : InStep limits s) : InStep limits s.close := by
  unfold NativeStreamLog.close
  split
  · exact h
  · refine ⟨⟨h.retains.numbered, List.nil_suffix, rfl, Nat.zero_le _, Nat.zero_le _⟩, ?_⟩
    exact h.map fun _ hsub => hsub.terminate _

theorem InStep.modify (h : InStep limits s) (i : ℕ) {f : NativeSubscription → NativeSubscription}
    (hf : ∀ sub, sub.Follows s.frames → (f sub).Follows s.frames) :
    InStep limits { s with subscriptions := s.subscriptions.modify i f } := by
  refine ⟨⟨h.retains.1, h.retains.2, h.retains.3, h.retains.4, h.retains.5⟩, fun sub' hmem => ?_⟩
  obtain ⟨sub, hsub, rfl | rfl⟩ := mem_modify hmem
  · exact h.follows sub' hsub
  · exact hf sub (h.follows sub hsub)

theorem next_inStep (operation : Operation) (h : InStep limits s) :
    InStep limits (next limits epoch invocationId text s operation) := by
  have hsame := h.retains
  cases operation with
  | append o =>
    refine after_induction h fun a s' hrun => ?_
    simp only [append, run_eq_ok] at hrun
    obtain ⟨-, -, -, -, -, -, rfl⟩ := hrun
    generalize frameOf epoch invocationId text (s.sequence + 1) o = frame
    refine ⟨push_retains h.retains _, fun sub' hmem => ?_⟩
    obtain ⟨sub, hsub, rfl⟩ := List.mem_map.mp hmem
    rw [show (push limits frame s).frames = s.frames ++ [frame] from List.map_append]
    exact (h.follows sub hsub).offer _ _
  | subscribe =>
    refine after_induction h fun a s' hrun => ?_
    simp only [subscribe, run_eq_ok] at hrun
    obtain ⟨-, -, at?, hplace, -, -, rfl⟩ := hrun
    refine ⟨⟨hsame.1, hsame.2, hsame.3, hsame.4, hsame.5⟩, fun sub hmem => ?_⟩
    rcases List.mem_append.mp hmem with hmem | hmem
    · exact h.follows sub hmem
    · rw [List.mem_singleton.mp hmem]
      exact h.admitted hplace
  | receive i => exact h.modify i fun _ hsub => hsub.receive
  | closeSubscription i => exact h.modify i fun _ hsub => hsub.terminate _
  | finish reason =>
    exact ⟨⟨hsame.1, hsame.2, hsame.3, hsame.4, hsame.5⟩, h.map fun _ hsub => hsub.finish reason⟩
  | restart =>
    refine after_induction h fun a s' hrun => ?_
    simp only [restart, run_eq_ok] at hrun
    obtain ⟨-, rfl⟩ := hrun
    exact ⟨⟨hsame.1, hsame.2, hsame.3, hsame.4, hsame.5⟩, h.follows⟩
  | fail reason =>
    show InStep limits (fail reason s)
    unfold fail
    split
    · exact h
    · refine InStep.close ⟨⟨hsame.1, hsame.2, hsame.3, hsame.4, hsame.5⟩, ?_⟩
      exact h.map fun _ hsub => hsub.terminate _
  | close => exact h.close

theorem run_inStep (operations : List Operation) :
    InStep limits (run limits epoch invocationId text operations) := by
  have hinitial : InStep limits initial :=
    ⟨⟨rfl, List.suffix_refl _, rfl, Nat.zero_le _, Nat.zero_le _⟩, fun _ hmem => by cases hmem⟩
  unfold run
  exact List.foldlRecOn operations _ hinitial fun _ h operation _ => next_inStep operation h

/-- After any interleaving of calls the window is the end of the log, with consecutive numbers and
within the limits.  What a subscription was given is a run of the log from the place it asked for,
and one that has seen the end hands out no frame. -/
theorem native_log_gap_free (limits : NativeStreamLimits) (epoch invocationId : String)
    (text : Json → String) (operations : List Operation) :
    let s := run limits epoch invocationId text operations
    (s.appended.map Prod.fst = List.range' 1 s.sequence ∧ s.events <:+ s.appended ∧
      s.events.map Prod.fst =
        List.range' (s.sequence - s.events.length + 1) s.events.length) ∧
    (s.events.length ≤ limits.maxEvents ∧ s.bytes = size s.events ∧ s.bytes ≤ limits.maxBytes) ∧
    ∀ sub ∈ s.subscriptions, (∀ n, sub.cursor = some n → sub.start = n) ∧
      sub.delivered <+: (s.appended.map Prod.snd).drop sub.start ∧
      (sub.ended = true → ∀ frame, sub.receive.1 ≠ .frame frame) := by
  intro s
  have hstep : InStep limits s := run_inStep operations
  have hretains := hstep.retains
  refine ⟨⟨hretains.numbered, hretains.retained, hretains.events_numbered⟩, ⟨hretains.count_le,
    hretains.bytes, hretains.bytes_le⟩, fun sub hsub => ?_⟩
  have hfollows := hstep.follows sub hsub
  exact ⟨hfollows.asked, (List.prefix_append _ _).trans hfollows.within, hfollows.no_frame⟩

end NativeStreamLog
