/-
# Lifecycle streams

`LifecycleCloudEventSink` and `LifecycleSubscription` of `observability.py`, on the in-memory sink,
and the stream of `streaming.py` that reads one subscription.

The sink keeps a window of the latest events and, per subscriber, a bounded queue.  A subscriber is
given a backlog out of the window and then what its queue hands out.  When an event finds the queue
full, the sink drops the subscriber: it takes one item out of the queue and puts the overflow mark
behind the others.

Beside its state the sink carries the log of all events it has emitted, and each subscription what
it has handed out, split where its queue overflowed.  `Tracks` ties them together: backlog, handed
out events, the discarded event and what still waits are, in this order, one run of the log.  So the
events a subscriber sees are contiguous exactly when nothing but a copy of the discarded event is
handed out after the overflow (`LifecycleSink.stream_contiguous_iff`).
-/
import OpenWorkflowAgent.LifecycleEvents

open Transaction

/-! ## Queues -/

/-- An item of a subscriber's queue: an event, or `_STREAM_OVERFLOW`. -/
inductive StreamItem where
  | event (e : CloudEvent)
  | overflow
  deriving DecidableEq

namespace StreamItem

def event? : StreamItem → Option CloudEvent
  | .event e => some e
  | .overflow => none

@[simp] theorem event?_event (e : CloudEvent) : (StreamItem.event e).event? = some e := rfl

@[simp] theorem event?_overflow : StreamItem.overflow.event? = none := rfl

end StreamItem

/-- `put_nowait` on a queue of the given `maxsize`; `none` is `QueueFull`. -/
def putNowait (maxsize : ℕ) (queue : List StreamItem) (item : StreamItem) :
    Option (List StreamItem) :=
  if queue.length < maxsize then some (queue ++ [item]) else none

/-! ## Subscriptions -/

/-- A `LifecycleSubscription` with its queue.  `registered` says that the sink still holds the queue
in `_subscribers`.  The last six fields are the record of the stream. -/
structure LifecycleSubscription where
  queueSize : ℕ
  queue : List StreamItem
  registered : Bool
  closed : Bool
  /-- The `last_event_id` of the subscriber. -/
  lastEventId : Option String
  /-- How many events had been emitted before it subscribed. -/
  subscribedAt : ℕ
  backlog : List CloudEvent
  /-- The events handed out before the queue overflowed. -/
  before : List CloudEvent
  /-- The event that was taken out of the queue when it overflowed. -/
  discarded : Option CloudEvent
  /-- The events handed out after the queue overflowed. -/
  after : List CloudEvent
  deriving DecidableEq

/-- What a call of `receive` ends with. -/
inductive Reception where
  | event (e : CloudEvent)
  /-- `BufferError`: the subscriber exceeded its bounded queue. -/
  | backpressure
  /-- `TimeoutError`. -/
  | timeout
  deriving DecidableEq

namespace LifecycleSubscription

/-- What `emit` does with one queue. -/
def offer (e : CloudEvent) (sub : LifecycleSubscription) : LifecycleSubscription :=
  if sub.registered then
    match putNowait sub.queueSize sub.queue (.event e) with
    | some queue => { sub with queue := queue }
    | none =>
      -- `get_nowait` takes the oldest item out to make room for the mark.
      { sub with
        registered := false
        queue := (putNowait sub.queueSize sub.queue.tail .overflow).getD sub.queue.tail
        discarded := sub.queue.head?.bind StreamItem.event? }
  else sub

/-- The first item of the queue is an event: it is handed out. -/
def handOut (e : CloudEvent) (rest : List StreamItem) (sub : LifecycleSubscription) :
    LifecycleSubscription :=
  { sub with
    queue := rest
    before := if sub.discarded = none then sub.before ++ [e] else sub.before
    after := if sub.discarded = none then sub.after else sub.after ++ [e] }

/-- `receive`, at the moment its `get` is done or times out.  It does not look at `_closed`. -/
def receive (sub : LifecycleSubscription) : Reception × LifecycleSubscription :=
  match sub.queue with
  | [] => (.timeout, sub)
  | .overflow :: rest => (.backpressure, { sub with queue := rest })
  | .event e :: rest => (.event e, handOut e rest sub)

/-- `close`. -/
def close (sub : LifecycleSubscription) : LifecycleSubscription :=
  if sub.closed then sub else { sub with closed := true, registered := false }

def received (sub : LifecycleSubscription) : List CloudEvent := sub.before ++ sub.after

def delivered (sub : LifecycleSubscription) : List CloudEvent := sub.backlog ++ sub.received

/-- The place in the log right behind the event that the subscriber saw last. -/
def start (sub : LifecycleSubscription) : ℕ := sub.subscribedAt - sub.backlog.length

def pending (sub : LifecycleSubscription) : List CloudEvent := sub.queue.filterMap StreamItem.event?

end LifecycleSubscription

/-! ## The sink -/

structure SinkLimits where
  maxEvents : ℕ
  maxSubscribers : ℕ

/-- A sink without history: its window, the subscriptions in order of their ids, and the log of what
it emitted. -/
structure LifecycleSink where
  events : List CloudEvent
  subscriptions : List LifecycleSubscription
  emitted : List CloudEvent
  deriving DecidableEq

namespace LifecycleSink

variable (limits : SinkLimits)

/-- A sink before its first event. -/
def initial : LifecycleSink := ⟨[], [], []⟩

/-- The latest events, at most `max_events`. -/
def window (events : List CloudEvent) : List CloudEvent :=
  events.drop (events.length - limits.maxEvents)

/-- `emit`; `downstream` is what the next sink answers. -/
def emit (event : WorkflowEvent) (m : LifecycleMoment) (downstream : Except OwaError Unit) :
    Transaction OwaError LifecycleSink Unit := do
  let cloudEvent := event.normalized.toCloudEvent m
  orRaiseError downstream
  write fun s => {
    events := window limits (s.events ++ [cloudEvent])
    subscriptions := s.subscriptions.map (LifecycleSubscription.offer cloudEvent)
    emitted := s.emitted ++ [cloudEvent] }

/-- The part of the window behind the event that was seen last. -/
def backlogAfter (lastEventId : Option String) (events : List CloudEvent) :
    Option (List CloudEvent) :=
  match lastEventId with
  | none => some []
  | some id => (events.findIdx? fun e => e.id = id).map fun index => events.drop (index + 1)

/-- `subscribe`.  It answers the backlog and the new subscription's place. -/
def subscribe (lastEventId : Option String) (queueSize : ℕ) :
    Transaction OwaError LifecycleSink (List CloudEvent × ℕ) := do
  raiseIf (queueSize < 1)
    (.plain .valueError "lifecycle stream queue_size must be greater than zero")
  let registered ← read fun s => s.subscriptions.countP LifecycleSubscription.registered
  raiseIf (limits.maxSubscribers ≤ registered)
    (.plain .runtimeError "maximum lifecycle stream subscribers reached")
  let events ← read LifecycleSink.events
  let backlog ← orRaise (backlogAfter lastEventId events)
    (.plain .lookupError "last lifecycle event id is outside the bounded replay window")
  let place ← read fun s => s.subscriptions.length
  write fun s => { s with subscriptions := s.subscriptions ++ [{
    queueSize, queue := [], registered := true, closed := false, lastEventId,
    subscribedAt := s.emitted.length, backlog, before := [], discarded := none, after := [] }] }
  pure (backlog, place)

def withSubscription (i : ℕ) (f : LifecycleSubscription → LifecycleSubscription)
    (s : LifecycleSink) : LifecycleSink :=
  { s with subscriptions := s.subscriptions.modify i f }

/-! ## Runs -/

/-- A call of the sink or of one of its subscriptions. -/
inductive Operation where
  | emit (event : WorkflowEvent) (m : LifecycleMoment) (downstream : Except OwaError Unit)
  | subscribe (lastEventId : Option String) (queueSize : ℕ)
  | receive (i : ℕ)
  | close (i : ℕ)

def next (s : LifecycleSink) : Operation → LifecycleSink
  | .emit event m downstream => (emit limits event m downstream).after s
  | .subscribe lastEventId queueSize => (subscribe limits lastEventId queueSize).after s
  | .receive i => withSubscription i (fun sub => sub.receive.2) s
  | .close i => withSubscription i LifecycleSubscription.close s

/-- The sink after any interleaving of calls. -/
def run (operations : List Operation) : LifecycleSink := operations.foldl (next limits) initial

end LifecycleSink

/-! ## What a subscription holds of the log -/

namespace LifecycleSubscription

/-- Backlog, events handed out, the discarded event and the waiting ones, in the order in which they
were emitted. -/
def whole (sub : LifecycleSubscription) : List CloudEvent :=
  sub.backlog ++ (sub.before ++ (sub.discarded.toList ++ (sub.after ++ sub.pending)))

/-- The subscription is in step with the log. -/
structure Tracks (emitted : List CloudEvent) (sub : LifecycleSubscription) : Prop where
  within : sub.whole <+: emitted.drop sub.start
  current : sub.registered = true → sub.whole = emitted.drop sub.start
  undisturbed : sub.registered = true → sub.discarded = none ∧ .overflow ∉ sub.queue
  together : sub.discarded = none → sub.after = []
  bounded : 1 ≤ sub.queueSize
  started : sub.start ≤ emitted.length

variable {emitted : List CloudEvent} {sub : LifecycleSubscription}

theorem whole_handOut {e : CloudEvent} {rest : List StreamItem}
    (hqueue : sub.queue = .event e :: rest) (htogether : sub.discarded = none → sub.after = []) :
    (handOut e rest sub).whole = sub.whole := by
  have hpending : sub.pending = e :: rest.filterMap StreamItem.event? := by
    simp only [pending, hqueue, List.filterMap_cons, StreamItem.event?_event]
  unfold whole
  rw [hpending]
  cases hd : sub.discarded with
  | none => simp [handOut, hd, htogether hd, pending]
  | some d => simp [handOut, hd, pending]

theorem Tracks.handOut {e : CloudEvent} {rest : List StreamItem} (h : Tracks emitted sub)
    (hqueue : sub.queue = .event e :: rest) : Tracks emitted (handOut e rest sub) := by
  have hwhole := whole_handOut hqueue h.together
  constructor
  · rw [hwhole]
    exact h.within
  · intro hr
    rw [hwhole]
    exact h.current hr
  · intro hr
    refine ⟨(h.undisturbed hr).1, fun hmem => (h.undisturbed hr).2 ?_⟩
    rw [hqueue]
    exact List.mem_cons_of_mem _ hmem
  · intro (hd : sub.discarded = none)
    show (if sub.discarded = none then sub.after else sub.after ++ [e]) = []
    rw [if_pos hd, h.together hd]
  · exact h.bounded
  · exact h.started

/-- Reading the overflow mark hands out nothing; the subscriber has been dropped before. -/
theorem Tracks.readMark {rest : List StreamItem} (h : Tracks emitted sub)
    (hqueue : sub.queue = .overflow :: rest) : Tracks emitted { sub with queue := rest } := by
  have hmem : .overflow ∈ sub.queue := by
    rw [hqueue]
    exact List.mem_cons_self
  have hwhole : whole { sub with queue := rest } = sub.whole := by
    simp only [whole, pending, hqueue, List.filterMap_cons, StreamItem.event?_overflow]
  constructor
  · rw [hwhole]
    exact h.within
  · intro hr
    exact absurd hmem (h.undisturbed hr).2
  · intro hr
    exact absurd hmem (h.undisturbed hr).2
  · exact h.together
  · exact h.bounded
  · exact h.started

theorem Tracks.receive (h : Tracks emitted sub) : Tracks emitted sub.receive.2 := by
  unfold LifecycleSubscription.receive
  split
  · exact h
  · next rest hqueue => exact h.readMark hqueue
  · next e rest hqueue => exact h.handOut hqueue

theorem Tracks.close (h : Tracks emitted sub) : Tracks emitted sub.close := by
  unfold LifecycleSubscription.close
  split
  · exact h
  · exact ⟨h.within, fun hr => (by cases hr), fun hr => (by cases hr), h.together, h.bounded,
      h.started⟩

/-- A log that grows keeps what was dropped of it at the front. -/
theorem drop_start_append (h : sub.start ≤ emitted.length) (e : CloudEvent) :
    (emitted ++ [e]).drop sub.start = emitted.drop sub.start ++ [e] :=
  List.drop_append_of_le_length h

theorem Tracks.grow (h : Tracks emitted sub) (e : CloudEvent) (hr : sub.registered = false) :
    Tracks (emitted ++ [e]) sub := by
  have hno : sub.registered ≠ true := by
    rw [hr]
    exact Bool.false_ne_true
  refine ⟨?_, fun h' => absurd h' hno, fun h' => absurd h' hno, h.together, h.bounded, ?_⟩
  · rw [drop_start_append h.started]
    exact h.within.trans (List.prefix_append _ _)
  · rw [List.length_append]
    exact h.started.trans (Nat.le_add_right _ _)

/-- The event fits into the queue. -/
theorem Tracks.enqueue (h : Tracks emitted sub) (e : CloudEvent) (hr : sub.registered = true) :
    Tracks (emitted ++ [e]) { sub with queue := sub.queue ++ [.event e] } := by
  have hwhole : whole { sub with queue := sub.queue ++ [.event e] } = sub.whole ++ [e] := by
    simp [whole, pending, List.filterMap_append]
  have hall : whole { sub with queue := sub.queue ++ [.event e] }
      = (emitted ++ [e]).drop sub.start := by
    rw [hwhole, drop_start_append h.started, h.current hr]
  refine ⟨hall ▸ List.prefix_refl _, fun _ => hall, fun _ => ⟨(h.undisturbed hr).1, ?_⟩,
    h.together, h.bounded, ?_⟩
  · intro hmem
    rw [List.mem_append, List.mem_singleton] at hmem
    rcases hmem with hmem | hmem
    · exact (h.undisturbed hr).2 hmem
    · cases hmem
  · rw [List.length_append]
    exact h.started.trans (Nat.le_add_right _ _)

/-- The event finds the queue full: the oldest one in it is discarded. -/
theorem Tracks.drop (h : Tracks emitted sub) (e : CloudEvent) (hr : sub.registered = true)
    (hfull : ¬ sub.queue.length < sub.queueSize) :
    Tracks (emitted ++ [e]) { sub with
      registered := false
      queue := (putNowait sub.queueSize sub.queue.tail .overflow).getD sub.queue.tail
      discarded := sub.queue.head?.bind StreamItem.event? } := by
  obtain ⟨hdisc, hmark⟩ := h.undisturbed hr
  have hafter := h.together hdisc
  cases hqueue : sub.queue with
  | nil =>
    rw [hqueue, List.length_nil] at hfull
    exact absurd h.bounded (by omega)
  | cons item rest =>
    cases item with
    | overflow =>
      rw [hqueue] at hmark
      exact absurd List.mem_cons_self hmark
    | event d =>
      -- What leaves the queue stays in its place between the seen and the waiting events.
      have hwhole : sub.whole = sub.backlog ++ (sub.before ++ ([d] ++
          (sub.after ++ rest.filterMap StreamItem.event?))) := by
        simp [whole, hdisc, hafter, pending, hqueue]
      have hpending : ((putNowait sub.queueSize rest .overflow).getD rest).filterMap
          StreamItem.event? = rest.filterMap StreamItem.event? := by
        unfold putNowait
        split <;> simp
      refine ⟨?_, fun h' => (by cases h'), fun h' => (by cases h'), fun h' => (by cases h'),
        h.bounded, ?_⟩
      · show sub.backlog ++ (sub.before ++ ([d] ++ (sub.after ++ List.filterMap _ _))) <+: _
        rw [List.tail_cons, hpending, ← hwhole]
        exact h.within.trans (by
          show _ <+: (emitted ++ [e]).drop sub.start
          rw [drop_start_append h.started]
          exact List.prefix_append _ _)
      · rw [List.length_append]
        exact h.started.trans (Nat.le_add_right _ _)

theorem Tracks.offer (h : Tracks emitted sub) (e : CloudEvent) :
    Tracks (emitted ++ [e]) (sub.offer e) := by
  unfold LifecycleSubscription.offer
  by_cases hr : sub.registered = true
  · rw [if_pos hr]
    by_cases hroom : sub.queue.length < sub.queueSize
    · have hput : putNowait sub.queueSize sub.queue (.event e) = some (sub.queue ++ [.event e]) :=
        if_pos hroom
      rw [hput]
      exact h.enqueue e hr
    · have hput : putNowait sub.queueSize sub.queue (.event e) = none := if_neg hroom
      rw [hput]
      exact h.drop e hr hroom
  · rw [if_neg hr]
    exact h.grow e (Bool.eq_false_iff.mpr hr)

/-- The place a subscriber asks for when `now` events have been emitted: the next event, or the one
right behind the first event of the window that has the given id. -/
def RightBehind (limits : SinkLimits) (emitted : List CloudEvent) (now : ℕ)
    (lastEventId : Option String) (place : ℕ) : Prop :=
  match lastEventId with
  | none => place = now
  | some id => ∃ k e, place = k + 1 ∧ emitted[k]? = some e ∧ e.id = id ∧
      now - limits.maxEvents ≤ k ∧ k < now ∧
      ∀ j e', now - limits.maxEvents ≤ j → j < k → emitted[j]? = some e' → e'.id ≠ id

/-- The stream starts where its subscriber asked for. -/
def StartsRight (limits : SinkLimits) (emitted : List CloudEvent) (sub : LifecycleSubscription) :
    Prop :=
  RightBehind limits emitted sub.subscribedAt sub.lastEventId sub.start

/-- What `subscribe` noted: nothing of it changes later. -/
structure SameOrigin (sub sub' : LifecycleSubscription) : Prop where
  lastEventId : sub'.lastEventId = sub.lastEventId
  subscribedAt : sub'.subscribedAt = sub.subscribedAt
  backlog : sub'.backlog = sub.backlog

theorem sameOrigin_offer (e : CloudEvent) : SameOrigin sub (sub.offer e) := by
  unfold offer
  split
  · split <;> exact ⟨rfl, rfl, rfl⟩
  · exact ⟨rfl, rfl, rfl⟩

theorem sameOrigin_receive : SameOrigin sub sub.receive.2 := by
  unfold receive
  split <;> exact ⟨rfl, rfl, rfl⟩

theorem sameOrigin_close : SameOrigin sub sub.close := by
  unfold close
  split <;> exact ⟨rfl, rfl, rfl⟩

theorem SameOrigin.start {sub' : LifecycleSubscription} (h : SameOrigin sub sub') :
    sub'.start = sub.start := by
  unfold LifecycleSubscription.start
  rw [h.subscribedAt, h.backlog]

variable {limits : SinkLimits}

theorem SameOrigin.startsRight {sub' : LifecycleSubscription} (h : SameOrigin sub sub')
    (hs : sub.StartsRight limits emitted) : sub'.StartsRight limits emitted := by
  unfold StartsRight at hs ⊢
  rw [h.lastEventId, h.start, h.subscribedAt]
  exact hs

/-- Where a stream started is not touched by what is emitted later. -/
theorem StartsRight.grow (h : sub.StartsRight limits emitted)
    (hle : sub.subscribedAt ≤ emitted.length) (e : CloudEvent) :
    sub.StartsRight limits (emitted ++ [e]) := by
  unfold StartsRight at h ⊢
  cases hid : sub.lastEventId with
  | none =>
    rw [hid] at h
    exact h
  | some id =>
    rw [hid] at h
    obtain ⟨k, e₀, hstart, hget, heq, hlow, hlt, hfirst⟩ := h
    refine ⟨k, e₀, hstart, ?_, heq, hlow, hlt, ?_⟩
    · rw [List.getElem?_append_left (by omega)]
      exact hget
    · intro j e' hj hjk hget'
      rw [List.getElem?_append_left (by omega)] at hget'
      exact hfirst j e' hj hjk hget'

end LifecycleSubscription

/-! ## The invariant of the sink -/

namespace LifecycleSink

variable {limits : SinkLimits} {s : LifecycleSink}

/-- The window is the end of the log, and every subscription is in step with the log. -/
structure InStep (limits : SinkLimits) (s : LifecycleSink) : Prop where
  window : s.events = window limits s.emitted
  tracks : ∀ sub ∈ s.subscriptions, sub.Tracks s.emitted
  starts : ∀ sub ∈ s.subscriptions,
    sub.StartsRight limits s.emitted ∧ sub.subscribedAt ≤ s.emitted.length

theorem inStep_initial : InStep limits initial :=
  ⟨List.drop_nil.symm, fun _ h => (by cases h), fun _ h => (by cases h)⟩

/-- Cutting the window again after each event is cutting the log. -/
theorem window_append (events : List CloudEvent) (e : CloudEvent) :
    window limits (window limits events ++ [e]) = window limits (events ++ [e]) := by
  unfold window
  rw [List.length_append, List.length_append, List.length_drop]
  by_cases h : limits.maxEvents = 0
  · rw [h]
    simp
  · have hlen : events.length - limits.maxEvents ≤ events.length := Nat.sub_le _ _
    rw [← List.drop_append_of_le_length hlen, List.drop_drop]
    congr 1
    simp only [List.length_singleton]
    omega

theorem emit_inStep (event : WorkflowEvent) (m : LifecycleMoment)
    (downstream : Except OwaError Unit) (h : InStep limits s) :
    InStep limits ((emit limits event m downstream).after s) := by
  apply after_induction h
  intro a s' hrun
  simp only [emit, run_eq_ok] at hrun
  obtain ⟨-, rfl⟩ := hrun
  refine ⟨?_, ?_, ?_⟩
  · show LifecycleSink.window limits (s.events ++ [_]) = _
    rw [h.window, window_append]
  · intro sub' hmem
    obtain ⟨sub, hsub, rfl⟩ := List.mem_map.mp hmem
    exact (h.tracks sub hsub).offer _
  · intro sub' hmem
    obtain ⟨sub, hsub, rfl⟩ := List.mem_map.mp hmem
    obtain ⟨hright, hle⟩ := h.starts sub hsub
    have horigin := sub.sameOrigin_offer (event.normalized.toCloudEvent m)
    refine ⟨horigin.startsRight (hright.grow hle _), ?_⟩
    rw [horigin.subscribedAt, List.length_append]
    omega

/-- Changing one subscription without touching where it started. -/
theorem withSubscription_inStep {f : LifecycleSubscription → LifecycleSubscription} (i : ℕ)
    (h : InStep limits s) (htracks : ∀ sub, sub.Tracks s.emitted → (f sub).Tracks s.emitted)
    (horigin : ∀ sub, LifecycleSubscription.SameOrigin sub (f sub)) : InStep limits (withSubscription i f s) := by
  refine ⟨h.window, ?_, ?_⟩
  · intro sub' hsub'
    obtain ⟨sub, hsub, rfl | rfl⟩ := mem_modify hsub'
    · exact h.tracks sub' hsub
    · exact htracks sub (h.tracks sub hsub)
  · intro sub' hsub'
    obtain ⟨sub, hsub, rfl | rfl⟩ := mem_modify hsub'
    · exact h.starts sub' hsub
    · obtain ⟨hright, hle⟩ := h.starts sub hsub
      exact ⟨(horigin sub).startsRight hright, (horigin sub).subscribedAt ▸ hle⟩

theorem backlogAfter_window {emitted backlog : List CloudEvent} {lastEventId : Option String}
    (h : backlogAfter lastEventId (window limits emitted) = some backlog) :
    ∃ place ≤ emitted.length, backlog = emitted.drop place ∧
      LifecycleSubscription.RightBehind limits emitted emitted.length lastEventId place := by
  cases lastEventId with
  | none =>
    simp only [backlogAfter, Option.some.injEq] at h
    exact ⟨emitted.length, le_rfl, by rw [← h, List.drop_length], rfl⟩
  | some id =>
    simp only [backlogAfter, Option.map_eq_some_iff] at h
    obtain ⟨index, hfind, rfl⟩ := h
    obtain ⟨hlt, hid, hfirst⟩ := List.findIdx?_eq_some_iff_getElem.mp hfind
    simp only [decide_eq_true_eq] at hid hfirst
    have hlen : index < emitted.length - (emitted.length - limits.maxEvents) := by
      simpa only [window, List.length_drop] using hlt
    have hget : ∀ j, (window limits emitted)[j]?
        = emitted[emitted.length - limits.maxEvents + j]? := by
      intro j
      rw [window, List.getElem?_drop]
    refine ⟨emitted.length - limits.maxEvents + index + 1, by omega, ?_, ?_⟩
    · rw [window, List.drop_drop, Nat.add_assoc]
    · refine ⟨emitted.length - limits.maxEvents + index, (window limits emitted)[index], rfl, ?_,
        hid, Nat.le_add_right _ _, by omega, ?_⟩
      · rw [← hget, List.getElem?_eq_getElem hlt]
      · intro j e' hj hjk hget'
        have hsub : j - (emitted.length - limits.maxEvents) < index := by omega
        have hat : (window limits emitted)[j - (emitted.length - limits.maxEvents)]? = some e' := by
          rw [hget, Nat.add_sub_cancel' hj]
          exact hget'
        rw [List.getElem?_eq_getElem (hsub.trans hlt), Option.some.injEq] at hat
        rw [← hat]
        exact hfirst _ hsub

theorem subscribe_inStep (lastEventId : Option String) (queueSize : ℕ) (h : InStep limits s) :
    InStep limits ((subscribe limits lastEventId queueSize).after s) := by
  apply after_induction h
  intro a s' hrun
  simp only [subscribe, run_eq_ok] at hrun
  obtain ⟨hsize, -, backlog, hbacklog, -, rfl⟩ := hrun
  rw [h.window] at hbacklog
  obtain ⟨place, hle, rfl, hplace⟩ := backlogAfter_window hbacklog
  have hstart : s.emitted.length - (s.emitted.drop place).length = place := by
    rw [List.length_drop]
    omega
  refine ⟨h.window, ?_, ?_⟩
  · intro sub hmem
    rcases List.mem_append.mp hmem with hmem | hmem
    · exact h.tracks sub hmem
    · rw [List.mem_singleton] at hmem
      subst hmem
      have hwhole : s.emitted.drop place ++ ([] ++ ([] ++ ([] ++ []))) =
          s.emitted.drop (s.emitted.length - (s.emitted.drop place).length) := by
        rw [hstart]
        simp
      exact ⟨⟨[], by rw [List.append_nil]; exact hwhole⟩, fun _ => hwhole,
        fun _ => ⟨rfl, fun hmark => (by cases hmark)⟩, fun _ => rfl, Nat.not_lt.mp hsize,
        Nat.sub_le _ _⟩
  · intro sub hmem
    rcases List.mem_append.mp hmem with hmem | hmem
    · exact h.starts sub hmem
    · rw [List.mem_singleton] at hmem
      subst hmem
      refine ⟨?_, le_rfl⟩
      show LifecycleSubscription.RightBehind limits s.emitted s.emitted.length lastEventId
        (s.emitted.length - (s.emitted.drop place).length)
      rw [hstart]
      exact hplace

theorem next_inStep (operation : Operation) (h : InStep limits s) :
    InStep limits (next limits s operation) := by
  cases operation with
  | emit event m downstream => exact emit_inStep event m downstream h
  | subscribe lastEventId queueSize => exact subscribe_inStep lastEventId queueSize h
  | receive i =>
    exact withSubscription_inStep i h (fun _ => LifecycleSubscription.Tracks.receive)
      fun _ => LifecycleSubscription.sameOrigin_receive
  | close i =>
    exact withSubscription_inStep i h (fun _ => LifecycleSubscription.Tracks.close)
      fun _ => LifecycleSubscription.sameOrigin_close

theorem run_inStep (operations : List Operation) : InStep limits (run limits operations) := by
  unfold run
  exact List.foldlRecOn operations _ inStep_initial fun _ h operation _ => next_inStep operation h

end LifecycleSink

/-! ## The server-sent events of one subscription -/

/-- `StreamLimits`; `__post_init__` refuses any other value. -/
structure StreamLimits where
  maxEvents : ℕ
  maxBytes : ℕ
  timeoutSeconds : ℚ
  queueSize : ℕ
  maxEvents_range : 1 ≤ maxEvents ∧ maxEvents ≤ 1000
  maxBytes_range : 256 ≤ maxBytes ∧ maxBytes ≤ 16777216
  timeoutSeconds_range : 0 < timeoutSeconds ∧ timeoutSeconds ≤ 300
  queueSize_range : 1 ≤ queueSize ∧ queueSize ≤ 1000

/-- Why a stream ended: `terminal_reason`. -/
inductive StreamEnd where
  | timeout
  | eventLimit
  | byteLimit
  | backpressure
  deriving DecidableEq

namespace StreamEnd

def reason : StreamEnd → String
  | .timeout => "timeout"
  | .eventLimit => "event_limit"
  | .byteLimit => "byte_limit"
  | .backpressure => "backpressure"

end StreamEnd

def Reception.event? : Reception → Option CloudEvent
  | .event e => some e
  | .backpressure | .timeout => none

namespace LifecycleStream

variable (text : Json → String) (limits : StreamLimits)

/-- `encode_sse`; `text` is `json.dumps` without blanks. -/
def encodeSse (e : CloudEvent) : String :=
  "id: " ++ e.id ++ "\nevent: lifecycle\ndata: " ++ text (.obj e.asDict) ++ "\n\n"

/-- `encode_terminal`. -/
def encodeTerminal (reason : String) : String :=
  "event: stream.end\ndata: " ++ text (.obj [("reason", .str reason)]) ++ "\n\n"

/-- What has been sent: the events and the bytes of their frames. -/
structure Sent where
  events : List CloudEvent
  bytes : ℕ

def send (sent : Sent) (e : CloudEvent) : Option Sent :=
  if limits.maxBytes < sent.bytes + (encodeSse text e).utf8ByteSize then none
  else some ⟨sent.events ++ [e], sent.bytes + (encodeSse text e).utf8ByteSize⟩

def sendBacklog : List CloudEvent → Sent → Sent × Option StreamEnd
  | [], sent => (sent, none)
  | e :: es, sent =>
    if limits.maxEvents ≤ sent.events.length then (sent, some .eventLimit)
    else match send text limits sent e with
      | none => (sent, some .byteLimit)
      | some sent' => sendBacklog es sent'

/-- The loop over what the subscription hands out; without a further reception the stream waits.  A
deadline that has passed before `receive` is called is a timeout as well. -/
def sendLive : List Reception → Sent → Sent × Option StreamEnd
  | receptions, sent =>
    if limits.maxEvents ≤ sent.events.length then (sent, some .eventLimit)
    else match receptions with
      | [] => (sent, none)
      | .timeout :: _ => (sent, some .timeout)
      | .backpressure :: _ => (sent, some .backpressure)
      | .event e :: rest =>
        match send text limits sent e with
        | none => (sent, some .byteLimit)
        | some sent' => sendLive rest sent'

/-- Both loops of `lifecycle_sse_stream`. -/
def sendAll (backlog : List CloudEvent) (receptions : List Reception) : Sent × Option StreamEnd :=
  match sendBacklog text limits backlog ⟨[], 0⟩ with
  | (sent, some ended) => (sent, some ended)
  | (sent, none) => sendLive text limits receptions sent

/-- The frame that ends the stream, if it fits. -/
def terminalFrame (sent : Sent) : Option StreamEnd → List String
  | none => []
  | some ended =>
    if sent.bytes + (encodeTerminal text ended.reason).utf8ByteSize ≤ limits.maxBytes then
      [encodeTerminal text ended.reason]
    else []

/-- `lifecycle_sse_stream`: the frames it yields for a backlog and the receptions that follow. -/
def lifecycleSseStream (backlog : List CloudEvent) (receptions : List Reception) : List String :=
  let result := sendAll text limits backlog receptions
  result.1.events.map (encodeSse text) ++ terminalFrame text limits result.1 result.2

variable {text limits}

theorem send_events {sent sent' : Sent} {e : CloudEvent}
    (h : send text limits sent e = some sent') : sent'.events = sent.events ++ [e] := by
  unfold send at h
  split at h
  · cases h
  · rw [← Option.some.inj h]

/-- The loop over the backlog sends it in order; when it is not cut short it sends all of it. -/
theorem sendBacklog_events (backlog : List CloudEvent) (sent : Sent) :
    (sendBacklog text limits backlog sent).1.events <+: sent.events ++ backlog ∧
      ((sendBacklog text limits backlog sent).2 = none →
        (sendBacklog text limits backlog sent).1.events = sent.events ++ backlog) := by
  induction backlog generalizing sent with
  | nil => simp [sendBacklog]
  | cons e es ih =>
    unfold sendBacklog
    split
    · exact ⟨List.prefix_append _ _, fun h => (by cases h)⟩
    · cases hsend : send text limits sent e with
      | none => exact ⟨List.prefix_append _ _, fun h => (by cases h)⟩
      | some sent' =>
        have hih := ih sent'
        rw [send_events hsend, List.append_assoc] at hih
        exact hih

theorem sendLive_events (receptions : List Reception) (sent : Sent) :
    (sendLive text limits receptions sent).1.events <+:
      sent.events ++ receptions.filterMap Reception.event? := by
  induction receptions generalizing sent with
  | nil =>
    unfold sendLive
    split <;> exact List.prefix_append _ _
  | cons r rest ih =>
    unfold sendLive
    split
    · exact List.prefix_append _ _
    · cases r with
      | timeout => exact List.prefix_append _ _
      | backpressure => exact List.prefix_append _ _
      | event e =>
        show (match send text limits sent e with
          | none => (sent, some StreamEnd.byteLimit)
          | some sent' => sendLive text limits rest sent').1.events <+:
            sent.events ++ e :: rest.filterMap Reception.event?
        cases hsend : send text limits sent e with
        | none => exact List.prefix_append _ _
        | some sent' =>
          have hih := ih sent'
          rw [send_events hsend, List.append_assoc] at hih
          exact hih

theorem sendAll_events (backlog : List CloudEvent) (receptions : List Reception) :
    (sendAll text limits backlog receptions).1.events <+:
      backlog ++ receptions.filterMap Reception.event? := by
  obtain ⟨hwithin, hall⟩ := @sendBacklog_events text limits backlog ⟨[], 0⟩
  unfold sendAll
  cases hresult : sendBacklog text limits backlog ⟨[], 0⟩ with
  | mk sent ended =>
    rw [hresult] at hwithin hall
    cases ended with
    | some reason => exact hwithin.trans (List.prefix_append _ _)
    | none =>
      have hlive := @sendLive_events text limits receptions sent
      rw [hall rfl] at hlive
      exact hlive

/-! ### Limits of a stream -/

variable (text limits) in
/-- What has been sent is counted, and the limits allow it. -/
structure Allowed (sent : Sent) : Prop where
  events : sent.events.length ≤ limits.maxEvents
  counted : sent.bytes = (sent.events.map fun e => (encodeSse text e).utf8ByteSize).sum
  bytes : sent.bytes ≤ limits.maxBytes

theorem Allowed.send {sent sent' : Sent} {e : CloudEvent} (h : Allowed text limits sent)
    (hroom : ¬ limits.maxEvents ≤ sent.events.length)
    (hsend : send text limits sent e = some sent') : Allowed text limits sent' := by
  unfold LifecycleStream.send at hsend
  split at hsend
  · cases hsend
  · next hfits =>
      obtain rfl := Option.some.inj hsend
      refine ⟨?_, ?_, not_lt.mp hfits⟩
      · rw [List.length_append, List.length_singleton]
        omega
      · simp [h.counted]

theorem Allowed.sendBacklog {sent : Sent} (h : Allowed text limits sent)
    (backlog : List CloudEvent) : Allowed text limits (sendBacklog text limits backlog sent).1 := by
  induction backlog generalizing sent with
  | nil => exact h
  | cons e es ih =>
    unfold LifecycleStream.sendBacklog
    split
    · exact h
    · next hroom =>
        cases hsend : LifecycleStream.send text limits sent e with
        | none => exact h
        | some sent' => exact ih (h.send hroom hsend)

theorem Allowed.sendLive {sent : Sent} (h : Allowed text limits sent)
    (receptions : List Reception) :
    Allowed text limits (sendLive text limits receptions sent).1 := by
  induction receptions generalizing sent with
  | nil =>
    unfold LifecycleStream.sendLive
    split <;> exact h
  | cons r rest ih =>
    unfold LifecycleStream.sendLive
    split
    · exact h
    · next hroom =>
        cases r with
        | timeout | backpressure => exact h
        | event e =>
          show Allowed text limits (match LifecycleStream.send text limits sent e with
            | none => (sent, some StreamEnd.byteLimit)
            | some sent' => LifecycleStream.sendLive text limits rest sent').1
          cases hsend : LifecycleStream.send text limits sent e with
          | none => exact h
          | some sent' => exact ih (h.send hroom hsend)

theorem allowed_sendAll (backlog : List CloudEvent) (receptions : List Reception) :
    Allowed text limits (sendAll text limits backlog receptions).1 := by
  have hbacklog : Allowed text limits (sendBacklog text limits backlog ⟨[], 0⟩).1 :=
    Allowed.sendBacklog ⟨Nat.zero_le _, rfl, Nat.zero_le _⟩ backlog
  unfold sendAll
  cases hresult : sendBacklog text limits backlog ⟨[], 0⟩ with
  | mk sent ended =>
    rw [hresult] at hbacklog
    cases ended with
    | some => exact hbacklog
    | none => exact hbacklog.sendLive receptions

/-- **A stream stays within its limits.**  The frames of a stream have at most `maxBytes` bytes; they
are those of at most `maxEvents` events, in the order of the backlog and the receptions and without
a gap, and at most one more, which ends the stream. -/
theorem stream_within_limits (text : Json → String) (limits : StreamLimits)
    (backlog : List CloudEvent) (receptions : List Reception) :
    ((lifecycleSseStream text limits backlog receptions).map String.utf8ByteSize).sum ≤
      limits.maxBytes ∧
    ∃ events ending, lifecycleSseStream text limits backlog receptions =
        events.map (encodeSse text) ++ ending ∧
      events.length ≤ limits.maxEvents ∧
      events <+: backlog ++ receptions.filterMap Reception.event? ∧
      (ending = [] ∨ ∃ reason : StreamEnd, ending = [encodeTerminal text reason.reason]) := by
  have hallowed := @allowed_sendAll text limits backlog receptions
  have hevents := @sendAll_events text limits backlog receptions
  generalize hresult : sendAll text limits backlog receptions = result at hallowed hevents
  obtain ⟨sent, ended⟩ := result
  have hsum : ((sent.events.map (encodeSse text)).map String.utf8ByteSize).sum = sent.bytes := by
    rw [hallowed.counted, List.map_map]
    rfl
  have hending : terminalFrame text limits sent ended = [] ∨ ∃ reason : StreamEnd,
      terminalFrame text limits sent ended = [encodeTerminal text reason.reason] ∧
      sent.bytes + (encodeTerminal text reason.reason).utf8ByteSize ≤ limits.maxBytes := by
    cases ended with
    | none => exact Or.inl rfl
    | some reason =>
      by_cases hfits : sent.bytes + (encodeTerminal text reason.reason).utf8ByteSize ≤
          limits.maxBytes
      · exact Or.inr ⟨reason, if_pos hfits, hfits⟩
      · exact Or.inl (if_neg hfits)
  unfold lifecycleSseStream
  rw [hresult]
  refine ⟨?_, sent.events, _, rfl, hallowed.events, hevents, ?_⟩
  · rw [List.map_append, List.sum_append, hsum]
    rcases hending with hnone | ⟨reason, hframe, hfits⟩
    · simpa [hnone] using hallowed.bytes
    · simpa [hframe] using hfits
  · exact hending.imp_right fun ⟨reason, hframe, _⟩ => ⟨reason, hframe⟩

end LifecycleStream

/-! ## Contiguity -/

/-- Shifted by one element, a list fits into the same one only if it repeats that element. -/
theorem prefix_cons_iff_of_prefix {α : Type} {l r : List α} (a : α) (h : l <+: r) :
    l <+: a :: r ↔ ∀ x ∈ l, x = a := by
  induction l generalizing r a with
  | nil => simp
  | cons x l ih =>
    obtain ⟨r', rfl⟩ : ∃ r', r = x :: r' := by
      obtain ⟨t, rfl⟩ := h
      exact ⟨l ++ t, rfl⟩
    rw [List.cons_prefix_cons] at h
    rw [List.cons_prefix_cons, ih x h.2, List.forall_mem_cons]
    constructor
    · rintro ⟨rfl, hl⟩
      exact ⟨rfl, hl⟩
    · rintro ⟨rfl, hl⟩
      exact ⟨rfl, hl⟩

namespace LifecycleSubscription

variable {emitted : List CloudEvent} {sub : LifecycleSubscription}

/-- The backlog and the events handed out are a run of the log from the start of the stream on. -/
def Contiguous (emitted : List CloudEvent) (sub : LifecycleSubscription) : Prop :=
  sub.delivered <+: emitted.drop sub.start

instance : Decidable (sub.Contiguous emitted) :=
  inferInstanceAs (Decidable (_ <+: _))

/-- The discarded event is missing in the stream unless nothing else follows it. -/
theorem Tracks.contiguous_iff (h : Tracks emitted sub) :
    sub.Contiguous emitted ↔ ∀ d, sub.discarded = some d → ∀ e ∈ sub.after, e = d := by
  obtain ⟨t, ht⟩ := h.within
  unfold Contiguous delivered received
  cases hd : sub.discarded with
  | none =>
    refine ⟨fun _ d hsome => (by cases hsome), fun _ => ⟨sub.pending ++ t, ?_⟩⟩
    rw [← ht, whole, hd, h.together hd]
    simp
  | some d =>
    have hdrop : emitted.drop sub.start =
        sub.backlog ++ (sub.before ++ (d :: (sub.after ++ (sub.pending ++ t)))) := by
      rw [← ht, whole, hd]
      simp
    rw [hdrop, List.prefix_append_right_inj, List.prefix_append_right_inj,
      prefix_cons_iff_of_prefix d (List.prefix_append _ _)]
    constructor
    · intro hall d' hd'
      rw [← Option.some.inj hd']
      exact hall
    · exact fun hall => hall d rfl

end LifecycleSubscription

namespace LifecycleSink

variable {limits : SinkLimits} {s : LifecycleSink}

theorem subscribe_answer {lastEventId : Option String} {queueSize : ℕ}
    {answer : List CloudEvent × ℕ}
    (h : (subscribe limits lastEventId queueSize).answer s = .ok answer) :
    backlogAfter lastEventId s.events = some answer.1 := by
  obtain ⟨s', hrun⟩ := answer_eq_ok.mp h
  simp only [subscribe, run_eq_ok] at hrun
  obtain ⟨-, -, backlog, hbacklog, hanswer, -⟩ := hrun
  rw [hbacklog, ← hanswer]

/-- Who resumes behind an id that no missed event has is given every missed event. -/
theorem InStep.resume (h : InStep limits s) {seen missed : List CloudEvent} {id : String}
    {queueSize : ℕ} {answer : List CloudEvent × ℕ} (hlog : s.emitted = seen ++ missed)
    (hid : ∀ later ∈ missed, later.id ≠ id)
    (hanswer : (subscribe limits (some id) queueSize).answer s = .ok answer) :
    missed <:+ answer.1 := by
  have hbacklog := subscribe_answer hanswer
  rw [h.window] at hbacklog
  obtain ⟨place, -, hdrop, k, e, rfl, hget, heq, -⟩ := backlogAfter_window hbacklog
  have hk : k < seen.length := by
    by_contra hle
    rw [hlog, List.getElem?_append_right (Nat.not_lt.mp hle)] at hget
    exact hid e (List.mem_of_getElem? hget) heq
  rw [hdrop, hlog, List.drop_append_of_le_length hk]
  exact List.suffix_append _ _

/-- **A stream has no gap as long as its overflow hides none.**  After any interleaving of calls, a
stream starts where its subscriber asked for, and what it delivered is contiguous exactly when
nothing but copies of the discarded event was handed out after its queue overflowed.  The events sent
over a connection are the first of those delivered.  Where the stream is contiguous, the log is what
it delivered and what it missed, and a subscriber that resumes behind the last event it saw, an event
whose id comes up no more, is given all that it missed. -/
theorem stream_contiguous_iff (limits : SinkLimits) (operations : List Operation) (i : ℕ)
    (sub : LifecycleSubscription) (h : (run limits operations).subscriptions[i]? = some sub) :
    sub.StartsRight limits (run limits operations).emitted ∧
    (sub.Contiguous (run limits operations).emitted ↔
      ∀ d, sub.discarded = some d → ∀ e ∈ sub.after, e = d) ∧
    (∀ (text : Json → String) (streamLimits : StreamLimits) (receptions : List Reception),
      receptions.filterMap Reception.event? = sub.received →
      (LifecycleStream.sendAll text streamLimits sub.backlog receptions).1.events <+:
        sub.delivered) ∧
    ∀ missed, (run limits operations).emitted.drop sub.start = sub.delivered ++ missed →
      ∀ e, sub.delivered.getLast? = some e → (∀ later ∈ missed, later.id ≠ e.id) →
      ∀ queueSize answer,
        (subscribe limits (some e.id) queueSize).answer (run limits operations) = .ok answer →
        missed <:+ answer.1 := by
  have hstep := @run_inStep limits operations
  have hmem : sub ∈ (run limits operations).subscriptions := List.mem_of_getElem? h
  refine ⟨(hstep.starts sub hmem).1, (hstep.tracks sub hmem).contiguous_iff, ?_, ?_⟩
  · intro text streamLimits receptions hreceived
    have hsent := @LifecycleStream.sendAll_events text streamLimits sub.backlog receptions
    rw [hreceived] at hsent
    exact hsent
  · intro missed hmissed e _ hid queueSize answer hanswer
    have hlog : (run limits operations).emitted =
        ((run limits operations).emitted.take sub.start ++ sub.delivered) ++ missed := by
      rw [List.append_assoc, ← hmissed, List.take_append_drop]
    exact hstep.resume hlog hid hanswer

/-- The emission of an event that carries nothing but its id. -/
def emitBare (id : String) : Operation :=
  .emit (.bare "WorkflowStarted" id) ⟨"2026-01-01T00:00:00Z", "", none⟩ (.ok ())

/-- A subscriber with two places in its queue that sees one event, and then none of the next three. -/
def unreadOverflow : List Operation :=
  [.subscribe none 2, emitBare "a", .receive 0, emitBare "b", emitBare "c", emitBare "d"]

theorem stream_contiguous_unread : ∃ sub,
    (run ⟨1000, 32⟩ unreadOverflow).subscriptions[0]? = some sub ∧
      sub.delivered.map CloudEvent.id = ["a"] ∧
      sub.Contiguous (run ⟨1000, 32⟩ unreadOverflow).emitted := by
  have hseen : (run ⟨1000, 32⟩ unreadOverflow).subscriptions[0]?.map (fun sub =>
      (sub.after, sub.delivered.map CloudEvent.id)) = some ([], ["a"]) := by
    decide +kernel
  obtain ⟨sub, hsub, hpair⟩ := Option.map_eq_some_iff.mp hseen
  obtain ⟨hafter, hdelivered⟩ := Prod.mk.inj hpair
  refine ⟨sub, hsub, hdelivered, (stream_contiguous_iff _ unreadOverflow 0 sub hsub).2.1.mpr ?_⟩
  intro d _ e he
  rw [hafter] at he
  cases he

/-- A subscriber with two places in its queue that reads on after the queue overflowed. -/
def readPastOverflow : List Operation :=
  [.subscribe none 2, emitBare "a", emitBare "b", emitBare "c", .receive 0, .receive 0]

/-- The subscriber is handed the second event and then the overflow.  The first one is still in the
window, but neither this stream nor one that resumes behind the second event delivers it. -/
theorem stream_gap_before_overflow :
    (run ⟨1000, 32⟩ readPastOverflow).subscriptions.map (fun sub =>
        (sub.delivered.map CloudEvent.id, sub.receive.1,
          decide (sub.Contiguous (run ⟨1000, 32⟩ readPastOverflow).emitted)))
      = [(["b"], .timeout, false)] ∧
    (run ⟨1000, 32⟩ readPastOverflow).events.map CloudEvent.id = ["a", "b", "c"] ∧
    ((subscribe ⟨1000, 32⟩ (some "b") 2).answer (run ⟨1000, 32⟩ readPastOverflow)).toOption.map
      (fun answer => answer.1.map CloudEvent.id) = some ["c"] := by
  decide +kernel

end LifecycleSink
