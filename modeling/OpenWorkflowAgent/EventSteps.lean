/-
# What the event store commits

A committed operation of the event store is a sequence of moves, listed by `EventStore.Move` with
what the operation checked.  `operation_moves` says that the list is complete; every invariant of
the store is proved over it, and no later proof unfolds an operation.

`Tables` is the first such invariant, about the inbox and the outbox: every row carries an admitted
envelope, sequences and identities are unique, and all rows of one scope, source and id carry the
same envelope.  The loops over outbox and inbox rows need it to say what they do.

A run of the system interleaves operations of any number of processes with changes of the other
components that share the database.
-/
import OpenWorkflowAgent.EventAdmission

open Transaction

namespace EventStore

/-- The store with what its callers bring: the evaluators that may be used for a listener. -/
structure System where
  codec : EventCodec
  limits : EventStoreLimits
  evaluates : EventRegistration → EventEvaluator → Prop

/-! ## Changes of the tables -/

def insertRow (codec : EventCodec) (identity : EffectIdentity) (receipt : EffectReceipt)
    (s : EventStore) : EventStore :=
  { s with journal := EffectJournal.insertRows (services codec) identity receipt s.journal }

/-- The store after `_save_progress`. -/
def progressed (codec : EventCodec) (r : EventRegistration) (p : SubscriptionPayload)
    (status : SubscriptionStatus) (receipt : EffectReceipt) (s : EventStore) : EventStore :=
  updateSubscription (codec.key r.identity) { p with decisionCount := p.decisionCount + 1 } status
    (insertRow codec (r.decisionIdentity p.decisionCount) receipt s)

def selected (codec : EventCodec) (r : EventRegistration) (k : ℕ) (row : InboxRow)
    (receipt : EffectReceipt) (s : EventStore) : EventStore :=
  storeSelection ⟨codec.key r.identity, k + 1, row.sequence, row.digest,
    codec.key (r.eventIdentity k)⟩ (insertRow codec (r.eventIdentity k) receipt s)

/-- The receipt that `_save_progress` inserts, and what it checked of the payload. -/
structure ProgressReceipt (codec : EventCodec) (r : EventRegistration) (p : SubscriptionPayload)
    (status : SubscriptionStatus) (receipt : EffectReceipt) : Prop where
  digest : decisionDigest codec r p.decisionCount = .ok receipt.requestDigest
  fields : receipt.toReceiptFields = receiptFields receipt.requestDigest
    (SubscriptionPayload.routingValue { p with decisionCount := p.decisionCount + 1 } status) none
  valid : (SubscriptionPayload.value { p with decisionCount := p.decisionCount + 1 }).valid = true

/-- The payload that the decision on an event leads to. -/
def routed (current : EventProgress) (p : SubscriptionPayload) (row : InboxRow) (d : EventDecision)
    (correlations : Properties) : SubscriptionPayload :=
  { p with
    cursor := row.sequence
    correlations := correlations
    matchedFilters := sortedUnion current.matchedFilters d.filterIndices
    progress := d.progress }

def eventsAfter (current : EventProgress) (e : EventEnvelope) (d : EventDecision) :
    List EventEnvelope :=
  current.events ++ if d.terminator then [] else [e]

def statusAfter (d : EventDecision) : SubscriptionStatus :=
  if d.terminal then .completed else .pending

def finished (codec : EventCodec) (r : EventRegistration) :
    Option EffectReceipt → EventStore → EventStore
  | none, s => s
  | some receipt, s => insertRow codec r.identity receipt s

def selectedIf (codec : EventCodec) (r : EventRegistration) (k : ℕ) (row : InboxRow) :
    Option EffectReceipt → EventStore → EventStore
  | none, s => s
  | some receipt, s => selected codec r k row receipt s

def countedIf (p : SubscriptionPayload) : Option EffectReceipt → SubscriptionPayload
  | none => p
  | some _ => { p with selectionCount := p.selectionCount + 1 }

/-- What a committed scan that stops at an event has read and decided. -/
structure Selects (sys : System) (s : EventStore) (r : EventRegistration) (p : SubscriptionPayload)
    (current : EventProgress) (passed : List InboxRow) (row : InboxRow) (e : EventEnvelope)
    (d : EventDecision) (correlations : Properties) : Prop where
  subscription : readRow sys.codec r s = .ok (p, .pending)
  state : readState sys.codec r s = .ok current
  evaluator : ∃ evaluate, sys.evaluates r evaluate ∧ scanRows sys.codec evaluate current
    (candidates r.scope p.cursor sys.limits.scanBatch s) = .ok ⟨passed, some (row, e, d)⟩
  approved : verifyApprovalEvent s e r.scope = .ok ()
  bindings : mergeBindings changedBinding current.correlations d.correlations = .ok correlations
  routable : (routed current p row d correlations).routingState.valid = true ∧
    sys.codec.size (routed current p row d correlations).routingState ≤ sys.limits.maxEventBytes

/-- The receipt of a selection, which a terminator has not. -/
def SelectionReceipt (codec : EventCodec) (r : EventRegistration) (k : ℕ) (row : InboxRow)
    (e : EventEnvelope) (d : EventDecision) : Option EffectReceipt → Prop
  | none => d.terminator = true
  | some receipt => d.terminator = false ∧
      selectionDigest codec r k row.sequence row.digest = .ok receipt.requestDigest ∧
      receipt.toReceiptFields = receiptFields receipt.requestDigest e.value none

def FinalReceipt (r : EventRegistration) (events : List EventEnvelope) (terminal : Bool) :
    Option EffectReceipt → Prop
  | none => terminal = false
  | some receipt => terminal = true ∧
      receipt.toReceiptFields = receiptFields r.requestDigest (outputsOf events) none

/-- The operations of the receipts that this store writes. -/
def eventOperations : List String :=
  ["emit", "listen", "listen:registration:v1", "listen:event:v1", "listen:progress:v1"]

/-- What other components may change: their own receipts and the tables that are not of events. -/
structure Environment (codec : EventCodec) (s s' : EventStore) : Prop where
  tables : s' = { s with journal := s'.journal, approvals := s'.approvals }
  receipts : ∀ identity : EffectIdentity, identity.operation ∈ eventOperations →
    s'.journal.effects.lookup (codec.key identity) =
      s.journal.effects.lookup (codec.key identity) ∧
    s'.journal.effectInvocations.lookup (codec.key identity) =
      s.journal.effectInvocations.lookup (codec.key identity)

/-- One thing that a committed operation does. -/
inductive Move (sys : System) (s : EventStore) : EventStore → Prop
  | arrive {p : Properties} {defaultSource scope : String} {m : Moment} {e : EventEnvelope}
      (digest : String) (createdAt : ℚ) (hscope : checkScope scope = .ok ())
      (hsubmission : canonicalSubmission sys.codec sys.limits p defaultSource scope m s = .ok e)
      (hnew : s.inboxRow? (scope, e.source, e.id) = none)
      (hcapacity : arrivalCapacity sys.codec sys.limits e scope s = .ok ()) :
      Move sys s (storeArrival (s.arrivalRow sys.codec e scope digest createdAt) s)
  | publish {identity : EffectIdentity} {requestDigest defaultSource scope : String}
      {p : Properties} {operationId : Option String} {m : Moment} {e : EventEnvelope}
      {receipt : EffectReceipt} (hop : identity.operation = "emit")
      (hscope : checkScope scope = .ok ())
      (hnone : readReceipt sys.codec identity s = .ok none)
      (hsubmission : canonicalSubmission sys.codec sys.limits p defaultSource scope m s = .ok e)
      (hcapacity : publicationCapacity sys.codec sys.limits e scope s = .ok ())
      (hnew : ∀ row ∈ s.outbox, row.identity ≠ sys.codec.key identity)
      (hreceipt : EffectReceipt.make (receiptFields requestDigest e.value operationId) =
        .ok receipt) :
      Move sys s (insertRow sys.codec identity receipt
        (storePublication (publicationRow sys.codec identity requestDigest scope e m) s))
  /-- A publication whose event is in the inbox is delivered. -/
  | deliver {row : OutboxRow} {e : EventEnvelope} (hrow : row ∈ s.outbox)
      (hdecode : decodeEnvelope sys.codec row.envelope row.digest = .ok e)
      (harrived : (s.inboxRow? (row.scope, e.source, e.id)).isSome = true) :
      Move sys s (markDelivered row.identity s)
  | profile {invocationId : String} {row : EventProfileRow} :
      Move sys s { s with profiles := s.profiles.insertNew invocationId row }
  /-- A new listener. -/
  | register {r : EventRegistration} {strategy : Strategy} {consumers : Table String ℕ}
      {cursor : ℕ} {createdAt : ℚ} {receipt : EffectReceipt}
      (hop : r.identity.operation = "listen") (hscope : checkScope r.scope = .ok ())
      (hdigest : effectRequestDigest sys.codec.request "listen" (listenRequest strategy r.scope) =
        .ok r.requestDigest)
      (hnew : s.subscriptions.lookup (sys.codec.key r.identity) = none)
      (hconsumers : consumers = s.consumers.insertNew r.identity.invocationId 0)
      (hcursor : consumers.lookup r.identity.invocationId = some cursor)
      (hvalid : (newPayload r strategy cursor).value.valid = true)
      (hreceipt : EffectReceipt.make (receiptFields r.requestDigest
        (newPayload r strategy cursor).registrationValue none) = .ok receipt) :
      Move sys s (insertRow sys.codec r.receiptIdentity receipt
        (storeSubscription (sys.codec.key r.identity)
          ⟨r.identity.invocationId, r.identity.workflowFingerprint, newPayload r strategy cursor,
            .pending, createdAt⟩ { s with consumers := consumers }))
  /-- A batch without a decision. -/
  | pass {r : EventRegistration} {p : SubscriptionPayload} {current : EventProgress}
      {evaluate : EventEvaluator} {passed : List InboxRow} {last : InboxRow}
      {receipt : EffectReceipt} (hrow : readRow sys.codec r s = .ok (p, .pending))
      (hstate : readState sys.codec r s = .ok current) (hevaluate : sys.evaluates r evaluate)
      (hscan : scanRows sys.codec evaluate current
        (candidates r.scope p.cursor sys.limits.scanBatch s) = .ok ⟨passed, none⟩)
      (hlast : passed.getLast? = some last)
      (hreceipt : ProgressReceipt sys.codec r { p with cursor := last.sequence } .pending receipt) :
      Move sys s (progressed sys.codec r { p with cursor := last.sequence } .pending receipt
        (noteScanned (sys.codec.key r.identity) passed s))
  | select {r : EventRegistration} {p : SubscriptionPayload} {current : EventProgress}
      {passed : List InboxRow} {row : InboxRow} {e : EventEnvelope} {d : EventDecision}
      {correlations : Properties} {picked final : Option EffectReceipt} {receipt : EffectReceipt}
      (h : Selects sys s r p current passed row e d correlations)
      (hpicked : SelectionReceipt sys.codec r p.selectionCount row e d picked)
      (hfinal : FinalReceipt r (eventsAfter current e d) d.terminal final)
      (hreceipt : ProgressReceipt sys.codec r
        (countedIf (routed current p row d correlations) picked) (statusAfter d) receipt) :
      Move sys s (finished sys.codec r final (progressed sys.codec r
        (countedIf (routed current p row d correlations) picked) (statusAfter d) receipt
        (raiseWatermark r.identity.invocationId row.sequence
          (selectedIf sys.codec r p.selectionCount row picked
            (noteScanned (sys.codec.key r.identity) (passed ++ [row]) s)))))
  /-- A listener that needs no event is completed. -/
  | complete {r : EventRegistration} {p : SubscriptionPayload} {current : EventProgress}
      {final receipt : EffectReceipt} (hrow : readRow sys.codec r s = .ok (p, .pending))
      (hstate : readState sys.codec r s = .ok current)
      (hstrategy : p.strategy.completeWithoutEvents = true)
      (hfinal : FinalReceipt r current.events true (some final))
      (hreceipt : ProgressReceipt sys.codec r p .completed receipt) :
      Move sys s (progressed sys.codec r p .completed receipt
        (insertRow sys.codec r.identity final s))
  | close {r : EventRegistration} {p : SubscriptionPayload} {receipt : EffectReceipt}
      (hrow : readRow sys.codec r s = .ok (p, .pending))
      (hreceipt : ProgressReceipt sys.codec r p .closed receipt) :
      Move sys s (progressed sys.codec r p .closed receipt s)
  | retain {consumerKey : String} {pin : ConsumerPin} {a : Arrival}
      (h : checkSelected sys.codec consumerKey pin a s = .ok ()) :
      Move sys s (retainSelection consumerKey a s)
  | pin {consumerKey : String} {pin : ConsumerPin} {existing : Option ConsumerPin}
      (hexisting : s.pins.lookup consumerKey = existing) (hcounter : pin.cursor ≤ s.counter)
      (hkept : ∀ old, existing = some old → old.scope = pin.scope ∧ old.cursor ≤ pin.cursor ∧
        (pin.active = true → old.active = true)) :
      Move sys s { s with pins := s.pins.put consumerKey pin }
  /-- An arrival that nothing refers to is removed. -/
  | prune {row : InboxRow} (hrow : row ∈ s.inbox) (hselected : s.isSelected row = false)
      (hremovable : isRemovable sys.codec row s = .ok true) :
      Move sys s (deleteArrival row.sequence s)

abbrev Moves (sys : System) : EventStore → EventStore → Prop := Relation.ReflTransGen (Move sys)

/-! ## The inbox and the outbox -/

section Tables

variable (codec : EventCodec) (limits : EventStoreLimits)

/-- The row carries the envelope, which was admitted. -/
structure ArrivalOf (row : InboxRow) (e : EventEnvelope) : Prop where
  scope : checkScope row.scope = .ok ()
  source : row.source = e.source
  eventId : row.eventId = e.id
  envelope : row.envelope = e.value
  digest : row.digest = codec.digest e.value
  bytes : row.bytes = codec.size e.value
  admissible : Admissible codec limits e

/-- The publication carries the envelope, which was admitted. -/
structure PublicationOf (row : OutboxRow) (e : EventEnvelope) : Prop where
  scope : checkScope row.scope = .ok ()
  envelope : row.envelope = e.value
  digest : row.digest = codec.digest e.value
  bytes : row.bytes = codec.size e.value
  admissible : Admissible codec limits e

/-- The event is in the inbox or the outbox of the scope. -/
def Carries (s : EventStore) (scope : String) (e : EventEnvelope) : Prop :=
  (∃ row ∈ s.inbox, row.scope = scope ∧ ArrivalOf codec limits row e) ∨
    ∃ row ∈ s.outbox, row.scope = scope ∧ PublicationOf codec limits row e

/-- The invariant of the inbox and the outbox, and of the keys of subscriptions. -/
structure Tables (s : EventStore) : Prop where
  inbox : ∀ row ∈ s.inbox, ∃ e, ArrivalOf codec limits row e
  outbox : ∀ row ∈ s.outbox, ∃ e, PublicationOf codec limits row e
  sorted : s.inbox.Pairwise fun a b => a.sequence < b.sequence
  counted : ∀ row ∈ s.inbox, 0 < row.sequence ∧ row.sequence ≤ s.counter
  unique : ∀ a ∈ s.inbox, ∀ b ∈ s.inbox, a.scope = b.scope → a.source = b.source →
    a.eventId = b.eventId → a = b
  identities : (s.outbox.map OutboxRow.identity).Nodup
  agree : ∀ scope e e', Carries codec limits s scope e → Carries codec limits s scope e' →
    e.source = e'.source → e.id = e'.id → e = e'
  keyed : ∀ key row, s.subscriptions.lookup key = some row → key = codec.key row.payload.identity

end Tables

variable {codec : EventCodec} {limits : EventStoreLimits} {s s' : EventStore} {sys : System}

variable {e e' : EventEnvelope}

variable {row : InboxRow} {m : Moment} {r : EventRegistration} {limit : ℕ}

theorem ArrivalOf.decode (h : ArrivalOf codec limits row e) :
    decodeEnvelope codec row.envelope row.digest = .ok e := by
  rw [h.envelope, h.digest]
  exact decodeEnvelope_value h.admissible.wellFormed h.admissible.valid

theorem PublicationOf.decode {row : OutboxRow} (h : PublicationOf codec limits row e) :
    decodeEnvelope codec row.envelope row.digest = .ok e := by
  rw [h.envelope, h.digest]
  exact decodeEnvelope_value h.admissible.wellFormed h.admissible.valid

theorem ArrivalOf.unique (h : ArrivalOf codec limits row e) (h' : ArrivalOf codec limits row e') :
    e = e' :=
  Except.ok.inj (h.decode.symm.trans h'.decode)

theorem PublicationOf.unique {row : OutboxRow} (h : PublicationOf codec limits row e)
    (h' : PublicationOf codec limits row e') : e = e' :=
  Except.ok.inj (h.decode.symm.trans h'.decode)

theorem highest_le {n : ℕ} (h : ∀ row ∈ s.inbox, row.sequence ≤ n) : s.highest ≤ n := by
  unfold highest
  generalize s.inbox = rows at h
  induction rows with
  | nil => exact Nat.zero_le n
  | cons row _ ih =>
    rw [List.map_cons, List.foldr_cons]
    exact max_le (h row List.mem_cons_self) (ih fun r hr => h r (List.mem_cons_of_mem row hr))

theorem inboxRow?_eq_some {key : EventKey} (h : s.inboxRow? key = some row) :
    row ∈ s.inbox ∧ row.scope = key.1 ∧ row.source = key.2.1 ∧ row.eventId = key.2.2 := by
  unfold inboxRow? at h
  exact ⟨List.mem_of_find?_eq_some h, by simpa using List.find?_some h⟩

theorem inboxRow?_eq_none {key : EventKey} (h : s.inboxRow? key = none) (hrow : row ∈ s.inbox) :
    ¬ (row.scope = key.1 ∧ row.source = key.2.1 ∧ row.eventId = key.2.2) := by
  unfold inboxRow? at h
  rw [List.find?_eq_none] at h
  simpa using h row hrow

theorem Tables.inboxRow? (ht : Tables codec limits s) (hrow : row ∈ s.inbox) :
    s.inboxRow? (row.scope, row.source, row.eventId) = some row := by
  cases hfind : s.inboxRow? (row.scope, row.source, row.eventId) with
  | none => exact absurd ⟨rfl, rfl, rfl⟩ (inboxRow?_eq_none hfind hrow)
  | some row' =>
    obtain ⟨hmem, hscope, hsource, hid⟩ := inboxRow?_eq_some hfind
    rw [ht.unique row' hmem row hrow hscope hsource hid]

theorem Tables.serialize (ht : Tables codec limits s) :
    EventStore.serialize.run s = .ok ((), s) := by
  simp only [EventStore.serialize, run_eq_ok]
  exact ⟨by simpa using highest_le fun row hrow => (ht.counted row hrow).2, trivial⟩

variable {u : Unit}

theorem serialize_eq_ok (h : EventStore.serialize.run s = .ok (u, s')) : s = s' := by
  simp only [EventStore.serialize, run_eq_ok] at h
  obtain ⟨-, rfl⟩ := h
  rfl

theorem transaction_eq_ok {α : Type} {body : Transaction OwaError EventStore α} {a : α}
    (h : (transaction body).run s = .ok (a, s')) : body.run s = .ok (a, s') := by
  simp only [transaction, mapError_eq_ok, bind_eq_ok] at h
  obtain ⟨_, _, hserialize, hbody⟩ := h
  rw [← serialize_eq_ok hserialize] at hbody
  exact hbody

theorem owned_eq_ok {α : Type} {identity : EffectIdentity} {lease : Option ExecutionLease}
    {body : Transaction OwaError EventStore α} {a : α}
    (h : (owned identity lease body).run s = .ok (a, s')) : body.run s = .ok (a, s') := by
  unfold owned at h
  rw [mapError_eq_ok, Ownership.ownedWriteTransaction_eq_ok, bind_eq_ok] at h
  obtain ⟨-, _, _, hserialize, hbody⟩ := h
  rw [← serialize_eq_ok hserialize] at hbody
  exact hbody

/-! ### What is known of an event -/

theorem publishedEnvelope_spec (scope source id : String) {rows : List OutboxRow}
    (h : ∀ row ∈ rows, ∃ e, PublicationOf codec limits row e) :
    ∃ o, publishedEnvelope codec scope source id rows = .ok o ∧
      (o = none → ∀ row ∈ rows, ∀ e, PublicationOf codec limits row e → row.scope = scope →
        ¬ (e.source = source ∧ e.id = id)) ∧
      (∀ e, o = some e → ∃ row ∈ rows, row.scope = scope ∧ PublicationOf codec limits row e ∧
        e.source = source ∧ e.id = id) := by
  induction rows with
  | nil => exact ⟨none, rfl, fun _ row hrow => (by cases hrow), fun e he => (by cases he)⟩
  | cons row rows ih =>
    obtain ⟨o, ho, hnone, hsome⟩ := ih fun r hr => h r (List.mem_cons_of_mem row hr)
    obtain ⟨x, hx⟩ := h row List.mem_cons_self
    have hlift : ∀ e, o = some e → ∃ r ∈ row :: rows, r.scope = scope ∧
        PublicationOf codec limits r e ∧ e.source = source ∧ e.id = id := by
      intro e he
      obtain ⟨r, hr, hrest⟩ := hsome e he
      exact ⟨r, List.mem_cons_of_mem row hr, hrest⟩
    -- the head is passed over: it is of another scope or of another event
    have hpassed : ¬ (row.scope = scope ∧ x.source = source ∧ x.id = id) →
        (o = none → ∀ r ∈ row :: rows, ∀ e, PublicationOf codec limits r e → r.scope = scope →
          ¬ (e.source = source ∧ e.id = id)) := by
      intro hother hn r hr e he hscope hsame
      rcases List.mem_cons.mp hr with rfl | hr
      · rw [he.unique hx] at hsame
        exact hother ⟨hscope, hsame⟩
      · exact hnone hn r hr e he hscope hsame
    unfold publishedEnvelope
    by_cases hscope : row.scope = scope
    · by_cases hsame : x.source = source ∧ x.id = id
      · refine ⟨some x, ?_, fun hn => (by cases hn), ?_⟩
        · simp [hscope, hx.decode, hsame, bind, Except.bind, pure, Except.pure]
        · rintro e he
          cases he
          exact ⟨row, List.mem_cons_self, hscope, hx, hsame⟩
      · refine ⟨o, ?_, hpassed fun hc => hsame hc.2, hlift⟩
        simp only [hscope, if_true, hx.decode, bind, Except.bind, if_neg hsame, ho]
    · refine ⟨o, ?_, hpassed fun hc => hscope hc.1, hlift⟩
      rw [if_neg hscope, ho]

/-- `_known_envelope` answers the carried event of the scope, source and id. -/
theorem Tables.knownEnvelope (ht : Tables codec limits s) (scope : String) (e : EventEnvelope) :
    ∃ o, EventStore.knownEnvelope codec scope e s = .ok o ∧
      (o = none → ∀ x, Carries codec limits s scope x → ¬ (x.source = e.source ∧ x.id = e.id)) ∧
      (∀ x, o = some x → Carries codec limits s scope x ∧ x.source = e.source ∧ x.id = e.id) := by
  unfold EventStore.knownEnvelope
  cases hfind : s.inboxRow? (scope, e.source, e.id) with
  | some row =>
    obtain ⟨hrow, hscope, hsource, hid⟩ := inboxRow?_eq_some hfind
    obtain ⟨x, hx⟩ := ht.inbox row hrow
    refine ⟨some x, ?_, fun hn => (by cases hn), ?_⟩
    · simp only [hx.decode, bind, Except.bind, pure, Except.pure]
    · rintro y hy
      cases hy
      exact ⟨Or.inl ⟨row, hrow, hscope, hx⟩, hx.source.symm.trans hsource,
        hx.eventId.symm.trans hid⟩
  | none =>
    obtain ⟨o, ho, hnone, hsome⟩ := publishedEnvelope_spec scope e.source e.id ht.outbox
    refine ⟨o, ho, fun hn x hx hsame => ?_, fun x hx => ?_⟩
    · rcases hx with ⟨row, hrow, hscope, hof⟩ | ⟨row, hrow, hscope, hof⟩
      · exact inboxRow?_eq_none hfind hrow
          ⟨hscope, hof.source.trans hsame.1, hof.eventId.trans hsame.2⟩
      · exact hnone hn row hrow x hof hscope hsame
    · obtain ⟨row, hrow, hscope, hof, hsame⟩ := hsome x hx
      exact ⟨Or.inr ⟨row, hrow, hscope, hof⟩, hsame⟩

theorem Carries.admissible {scope : String} (h : Carries codec limits s scope e) :
    Admissible codec limits e := by
  rcases h with ⟨_, -, -, hof⟩ | ⟨_, -, -, hof⟩
  · exact hof.admissible
  · exact hof.admissible

/-- What `_canonical_submission` answers: the envelope the identity is bound to, or the proposed
one. -/
theorem Tables.canonicalSubmission (ht : Tables codec limits s) {p : Properties}
    {defaultSource scope : String}
    (h : EventStore.canonicalSubmission codec limits p defaultSource scope m s = .ok e) :
    Admissible codec limits e ∧
      (∀ x, Carries codec limits s scope x → x.source = e.source → x.id = e.id → x = e) ∧
      ∃ proposed, acceptEnvelope codec limits p defaultSource m = .ok proposed ∧
        proposed.source = e.source ∧ proposed.id = e.id ∧
        (Carries codec limits s scope e ∨ e = proposed) := by
  simp only [EventStore.canonicalSubmission, except_bind_eq_ok] at h
  obtain ⟨proposed, haccept, saved, hknown, hagree⟩ := h
  obtain ⟨o, ho, hnone, hsome⟩ := ht.knownEnvelope scope proposed
  cases ho.symm.trans hknown
  have hproposed := (acceptEnvelope_eq_ok.mp haccept).2.2
  cases saved with
  | none =>
    cases hagree
    exact ⟨hproposed, fun x hx hsource hid => absurd ⟨hsource, hid⟩ (hnone rfl x hx), e, haccept,
      rfl, rfl, Or.inr rfl⟩
  | some x =>
    obtain ⟨hx, hsource, hid⟩ := hsome x rfl
    simp only [agreeWithSaved, except_eq_ok] at hagree
    obtain ⟨_, -, _, -, -, hx'⟩ := hagree
    cases hx'
    exact ⟨hx.admissible, fun y hy hs hi => ht.agree scope y e hy hx hs hi, proposed, haccept,
      hsource.symm, hid.symm, Or.inl hx⟩

/-! ### The tables along moves -/

/-- The invariant speaks of the arrivals, the publications and the keys of subscriptions. -/
theorem Tables.congr (ht : Tables codec limits s) (hinbox : s'.inbox = s.inbox)
    (houtbox : s'.outbox = s.outbox) (hcounter : s'.counter = s.counter)
    (hkeyed : ∀ key row, s'.subscriptions.lookup key = some row →
      key = codec.key row.payload.identity) : Tables codec limits s' where
  inbox := hinbox ▸ ht.inbox
  outbox := houtbox ▸ ht.outbox
  sorted := hinbox ▸ ht.sorted
  counted := hinbox ▸ hcounter ▸ ht.counted
  unique := hinbox ▸ ht.unique
  identities := houtbox ▸ ht.identities
  agree := by
    intro scope e e' h h'
    unfold Carries at h h'
    rw [hinbox, houtbox] at h h'
    exact ht.agree scope e e' h h'
  keyed := hkeyed

/-! ### Stored subscriptions -/

variable {p : SubscriptionPayload} {status : SubscriptionStatus}

theorem readRow_eq_ok (h : readRow codec r s = .ok (p, status)) :
    ∃ row, s.subscriptions.lookup (codec.key r.identity) = some row ∧ row.payload = p ∧
      row.status = status ∧ verifyRow codec s r row = .ok () := by
  unfold readRow at h
  cases hl : s.subscriptions.lookup (codec.key r.identity) with
  | none =>
    rw [hl] at h
    cases h
  | some row =>
    rw [hl] at h
    dsimp only at h
    split at h
    · next hverify =>
        cases h
        exact ⟨row, rfl, rfl, rfl, hverify⟩
    · cases h

theorem readState_of_row {current : EventProgress} (hrow : readRow codec r s = .ok (p, status))
    (h : readState codec r s = .ok current) : current.completed = decide (status = .completed) ∧
      current.closed = decide (status = .closed) ∧ current.toMatchProgress = p.toMatchProgress ∧
      current.cursor = p.cursor := by
  simp only [readState, except_bind_eq_ok] at h
  obtain ⟨found, hfound, _, -, events, -, final, -, _, -, decision, -, hcurrent⟩ := h
  cases hrow.symm.trans hfound
  cases hcurrent
  exact ⟨rfl, rfl, rfl, rfl⟩

theorem verifyRow_registration {row : SubscriptionRow}
    (h : verifyRow codec s r row = .ok u) : row.payload.registration = r := by
  simp only [verifyRow, except_eq_ok, not_or, not_not] at h
  obtain ⟨_, -, ⟨hr, -⟩, -⟩ := h
  exact hr

theorem readRow_registration (h : readRow codec r s = .ok (p, status)) : p.registration = r := by
  obtain ⟨row, -, rfl, -, hverify⟩ := readRow_eq_ok h
  exact verifyRow_registration hverify

theorem readRow_identity (h : readRow codec r s = .ok (p, status)) : p.identity = r.identity :=
  congrArg EventRegistration.identity (readRow_registration h)

theorem keyed_update (hkeyed : ∀ key row, s.subscriptions.lookup key = some row →
      key = codec.key row.payload.identity) {key : String} {row : SubscriptionRow}
    (h : (updateSubscription (codec.key p.identity) p status s).subscriptions.lookup key =
      some row) : key = codec.key row.payload.identity := by
  by_cases hkey : key = codec.key p.identity
  · subst hkey
    rw [updateSubscription, Table.lookup_updateWhere_self, Option.map_eq_some_iff] at h
    obtain ⟨old, -, hrow⟩ := h
    rw [← hrow]
    rfl
  · rw [updateSubscription, Table.lookup_updateWhere_ne hkey] at h
    exact hkeyed key row h

section Frames

variable {k : ℕ} {o : Option EffectReceipt}

@[simp] theorem finished_inbox : (finished codec r o s).inbox = s.inbox := by cases o <;> rfl
@[simp] theorem finished_outbox : (finished codec r o s).outbox = s.outbox := by cases o <;> rfl
@[simp] theorem finished_counter : (finished codec r o s).counter = s.counter := by cases o <;> rfl
@[simp] theorem finished_subscriptions :
    (finished codec r o s).subscriptions = s.subscriptions := by cases o <;> rfl
@[simp] theorem selectedIf_subscriptions :
    (selectedIf codec r k row o s).subscriptions = s.subscriptions := by cases o <;> rfl
@[simp] theorem selectedIf_inbox : (selectedIf codec r k row o s).inbox = s.inbox := by
  cases o <;> rfl
@[simp] theorem selectedIf_outbox : (selectedIf codec r k row o s).outbox = s.outbox := by
  cases o <;> rfl
@[simp] theorem selectedIf_counter : (selectedIf codec r k row o s).counter = s.counter := by
  cases o <;> rfl

end Frames

variable {scope : String} {e : EventEnvelope}

theorem Tables.agree_extend (ht : Tables codec limits s)
    (hbound : ∀ x, Carries codec limits s scope x → x.source = e.source → x.id = e.id → x = e)
    (hcarries : ∀ scope' x, Carries codec limits s' scope' x →
      Carries codec limits s scope' x ∨ (scope' = scope ∧ x = e)) (scope' : String)
    (x y : EventEnvelope) (hx : Carries codec limits s' scope' x)
    (hy : Carries codec limits s' scope' y) (hsource : x.source = y.source) (hid : x.id = y.id) :
    x = y := by
  rcases hcarries scope' x hx with hx | ⟨hs, hx⟩ <;>
    rcases hcarries scope' y hy with hy | ⟨hs', hy⟩
  · exact ht.agree scope' x y hx hy hsource hid
  · rw [hs'] at hx
    rw [hy] at hsource hid ⊢
    exact hbound x hx hsource hid
  · rw [hs] at hy
    rw [hx] at hsource hid ⊢
    exact (hbound y hy hsource.symm hid.symm).symm
  · rw [hx, hy]

variable {p : Properties} {defaultSource : String}

theorem mem_snoc {α : Type} {l : List α} {a b : α} : a ∈ l ++ [b] ↔ a ∈ l ∨ a = b := by simp

theorem Tables.arrive (ht : Tables codec limits s) {digest : String} {createdAt : ℚ}
    (hscope : checkScope scope = .ok ())
    (hsubmission : EventStore.canonicalSubmission codec limits p defaultSource scope m s = .ok e)
    (hnew : s.inboxRow? (scope, e.source, e.id) = none) :
    Tables codec limits (storeArrival (s.arrivalRow codec e scope digest createdAt) s) := by
  obtain ⟨hadmissible, hbound, -⟩ := ht.canonicalSubmission hsubmission
  have hof : ArrivalOf codec limits (s.arrivalRow codec e scope digest createdAt) e :=
    ⟨hscope, rfl, rfl, rfl, rfl, rfl, hadmissible⟩
  have hother : ∀ row ∈ s.inbox,
      ¬ (row.scope = scope ∧ row.source = e.source ∧ row.eventId = e.id) :=
    fun row hrow => inboxRow?_eq_none hnew hrow
  refine ⟨?_, ht.outbox, ?_, ?_, ?_, ht.identities, ?_, ht.keyed⟩
  · intro row hrow
    rcases mem_snoc.mp hrow with hold | rfl
    · exact ht.inbox row hold
    · exact ⟨e, hof⟩
  · refine List.pairwise_append.mpr ⟨ht.sorted, List.pairwise_singleton _ _, ?_⟩
    intro a ha b hb
    rw [List.mem_singleton.mp hb]
    exact Nat.lt_succ_of_le (ht.counted a ha).2
  · intro row hrow
    rcases mem_snoc.mp hrow with hold | rfl
    · exact ⟨(ht.counted row hold).1, Nat.le_succ_of_le (ht.counted row hold).2⟩
    · exact ⟨Nat.succ_pos _, le_refl _⟩
  · intro a ha b hb hs hsource hid
    rcases mem_snoc.mp ha with ha | rfl <;> rcases mem_snoc.mp hb with hb | rfl
    · exact ht.unique a ha b hb hs hsource hid
    · exact absurd ⟨hs, hsource, hid⟩ (hother a ha)
    · exact absurd ⟨hs.symm, hsource.symm, hid.symm⟩ (hother b hb)
    · rfl
  · -- what the new store carries is carried before, or is the new event
    refine ht.agree_extend hbound ?_
    rintro scope' x (⟨row, hrow, hs, hx⟩ | h)
    · rcases mem_snoc.mp hrow with hold | rfl
      · exact Or.inl (Or.inl ⟨row, hold, hs, hx⟩)
      · exact Or.inr ⟨hs.symm, hx.unique hof⟩
    · exact Or.inl (Or.inr h)

variable {identity : EffectIdentity}

theorem Tables.publish (ht : Tables codec limits s) {requestDigest : String}
    (hscope : checkScope scope = .ok ())
    (hsubmission : EventStore.canonicalSubmission codec limits p defaultSource scope m s = .ok e)
    (hnew : ∀ row ∈ s.outbox, row.identity ≠ codec.key identity) : Tables codec limits
      (storePublication (publicationRow codec identity requestDigest scope e m) s) := by
  obtain ⟨hadmissible, hbound, -⟩ := ht.canonicalSubmission hsubmission
  have hof : PublicationOf codec limits (publicationRow codec identity requestDigest scope e m) e :=
    ⟨hscope, rfl, rfl, rfl, hadmissible⟩
  refine ⟨ht.inbox, ?_, ht.sorted, ht.counted, ht.unique, ?_, ?_, ht.keyed⟩
  · intro row hrow
    rcases mem_snoc.mp hrow with hold | rfl
    · exact ht.outbox row hold
    · exact ⟨e, hof⟩
  · show (List.map OutboxRow.identity (s.outbox ++ _)).Nodup
    rw [List.map_append]
    refine List.Nodup.append ht.identities (List.nodup_singleton _) ?_
    intro key hkey hkey'
    obtain ⟨row, hrow, rfl⟩ := List.mem_map.mp hkey
    exact hnew row hrow (List.mem_singleton.mp hkey')
  · refine ht.agree_extend hbound ?_
    rintro scope' x (h | ⟨row, hrow, hs, hx⟩)
    · exact Or.inl (Or.inl h)
    · rcases mem_snoc.mp hrow with hold | rfl
      · exact Or.inl (Or.inr ⟨row, hold, hs, hx⟩)
      · exact Or.inr ⟨hs.symm, hx.unique hof⟩

theorem publicationOf_delivered {row : OutboxRow} {identity : String} :
    PublicationOf codec limits
        (if row.identity = identity then { row with delivered := true } else row) e ↔
      PublicationOf codec limits row e := by
  split
  · exact ⟨fun h => ⟨h.scope, h.envelope, h.digest, h.bytes, h.admissible⟩,
      fun h => ⟨h.scope, h.envelope, h.digest, h.bytes, h.admissible⟩⟩
  · rfl

theorem Tables.deliver (ht : Tables codec limits s) (identity : String) :
    Tables codec limits (markDelivered identity s) := by
  have hcarries : ∀ scope x, Carries codec limits (markDelivered identity s) scope x →
      Carries codec limits s scope x := by
    rintro scope x (h | ⟨row, hrow, hs, hx⟩)
    · exact Or.inl h
    · obtain ⟨row', hrow', rfl⟩ := List.mem_map.mp hrow
      refine Or.inr ⟨row', hrow', ?_, publicationOf_delivered.mp hx⟩
      rw [← hs]
      split <;> rfl
  refine ⟨ht.inbox, ?_, ht.sorted, ht.counted, ht.unique, ?_, ?_, ht.keyed⟩
  · intro row hrow
    obtain ⟨row', hrow', rfl⟩ := List.mem_map.mp hrow
    obtain ⟨e, he⟩ := ht.outbox row' hrow'
    exact ⟨e, publicationOf_delivered.mpr he⟩
  · have hsame : (markDelivered identity s).outbox.map OutboxRow.identity =
        s.outbox.map OutboxRow.identity := by
      show List.map _ (List.map _ s.outbox) = _
      rw [List.map_map]
      refine List.map_congr_left fun row _ => ?_
      simp only [Function.comp_apply]
      split <;> rfl
    rw [hsame]
    exact ht.identities
  · intro scope x y hx hy
    exact ht.agree scope x y (hcarries scope x hx) (hcarries scope y hy)

theorem Tables.prune (ht : Tables codec limits s) (sequence : ℕ) :
    Tables codec limits (deleteArrival sequence s) := by
  have hsub : ∀ row ∈ (deleteArrival sequence s).inbox, row ∈ s.inbox :=
    fun row hrow => List.mem_of_mem_filter hrow
  have hcarries : ∀ scope x, Carries codec limits (deleteArrival sequence s) scope x →
      Carries codec limits s scope x := by
    rintro scope x (⟨row, hrow, h⟩ | h)
    · exact Or.inl ⟨row, hsub row hrow, h⟩
    · exact Or.inr h
  exact ⟨fun row hrow => ht.inbox row (hsub row hrow), ht.outbox,
    ht.sorted.sublist List.filter_sublist, fun row hrow => ht.counted row (hsub row hrow),
    fun a ha b hb => ht.unique a (hsub a ha) b (hsub b hb), ht.identities,
    fun scope x y hx hy => ht.agree scope x y (hcarries scope x hx) (hcarries scope y hy), ht.keyed⟩

variable {receipt : EffectReceipt}

theorem Tables.keyed_progressed (ht : Tables codec limits s) {p : SubscriptionPayload}
    {status : SubscriptionStatus} (hp : p.identity = r.identity)
    (hs : s'.subscriptions = s.subscriptions) :
    ∀ key row, (progressed codec r p status receipt s').subscriptions.lookup key = some row →
      key = codec.key row.payload.identity := by
  intro key row hrow
  unfold progressed at hrow
  rw [← hp] at hrow
  exact keyed_update (p := { p with decisionCount := p.decisionCount + 1 })
    (fun key row hrow => ht.keyed key row (hs ▸ hrow)) hrow

theorem Move.tables (h : Move sys s s') (ht : Tables sys.codec sys.limits s) :
    Tables sys.codec sys.limits s' := by
  cases h with
  | arrive _ _ hscope hsubmission hnew => exact ht.arrive hscope hsubmission hnew
  | publish _ hscope _ hsubmission _ hnew =>
    exact (ht.publish hscope hsubmission hnew).congr rfl rfl rfl ht.keyed
  | deliver => exact ht.deliver _
  | prune => exact ht.prune _
  | register =>
    refine ht.congr rfl rfl rfl fun key row hrow => ?_
    simp only [insertRow, storeSubscription, Table.lookup_put] at hrow
    split at hrow
    · next hkey =>
        rw [← Option.some.inj hrow]
        exact hkey
    · exact ht.keyed key row hrow
  | @pass r p _ _ _ last _ hrow hstate hevaluate hscan hlast hreceipt =>
    have hidentity := readRow_identity hrow
    exact ht.congr rfl rfl rfl
      (ht.keyed_progressed (p := { p with cursor := last.sequence }) hidentity rfl)
  | complete hrow =>
    exact ht.congr rfl rfl rfl (ht.keyed_progressed (readRow_identity hrow) rfl)
  | close hrow =>
    exact ht.congr rfl rfl rfl (ht.keyed_progressed (readRow_identity hrow) rfl)
  | @select r p current _ row _ d correlations picked _ _ h hpicked hfinal hreceipt =>
    have hidentity : (countedIf (routed current p row d correlations) picked).identity =
        r.identity := by
      rw [← readRow_identity h.subscription]
      cases picked <;> rfl
    refine ht.congr ?_ ?_ ?_ ?_
    iterate 3 simp [progressed, updateSubscription, insertRow, raiseWatermark, noteScanned]
    rw [finished_subscriptions]
    refine ht.keyed_progressed hidentity ?_
    simp [raiseWatermark, noteScanned]
  | retain =>
    unfold retainSelection
    split
    · exact ht
    · exact ht.congr rfl rfl rfl ht.keyed
  | profile | pin => exact ht.congr rfl rfl rfl ht.keyed

theorem Moves.tables (h : Moves sys s s') (ht : Tables sys.codec sys.limits s) :
    Tables sys.codec sys.limits s' := by
  induction h with
  | refl => exact ht
  | tail _ hlast ih => exact hlast.tables ih

/-! ## What each operation commits -/

theorem insertReceipt_eq_ok {digest : String} {output : Json} {operationId : Option String}
    (h : (insertReceipt codec identity digest output operationId).run s = .ok (receipt, s')) :
    EffectReceipt.make (receiptFields digest output operationId) = .ok receipt ∧
      s' = insertRow codec identity receipt s := by
  simp only [insertReceipt, onJournal, run_eq_ok, zoom_eq_ok] at h
  obtain ⟨made, hmake, j, hinsert, rfl, rfl⟩ := h
  obtain ⟨-, hj, -⟩ := EffectJournal.insertCompletedReceipt_eq_ok hinsert
  refine ⟨hmake, ?_⟩
  rw [hj]
  rfl

theorem invocationTerminal_eq_ok {invocationId : String} {b : Bool}
    (h : (invocationTerminal invocationId).run s = .ok (b, s')) : s = s' := by
  simp only [invocationTerminal, onJournal, run_eq_ok, zoom_eq_ok] at h
  obtain ⟨_, _, hget, -, rfl⟩ := h
  rw [← (Invocations.getInvocation_eq_ok hget).1]

theorem saveProgress_eq_ok {p : SubscriptionPayload} {status : SubscriptionStatus}
    (h : (saveProgress codec r p status).run s = .ok (u, s')) :
    ∃ receipt, ProgressReceipt codec r p status receipt ∧
      s' = progressed codec r p status receipt s := by
  simp only [saveProgress, run_eq_ok, Bool.not_eq_false] at h
  obtain ⟨digest, hdigest, receipt, _, hinsert, hvalid, rfl⟩ := h
  obtain ⟨hmake, rfl⟩ := insertReceipt_eq_ok hinsert
  have hfields := EffectReceipt.make_eq_ok hmake
  have hd : receipt.requestDigest = digest := congrArg ReceiptFields.requestDigest hfields
  refine ⟨receipt, ⟨by rw [hd, hdigest], by rw [hd, hfields], hvalid⟩, rfl⟩

/-! ### Arrivals and publications -/

theorem ingestInTransaction_eq_ok
    (h : (ingestInTransaction codec limits p defaultSource scope m).run s = .ok (e, s')) :
    checkScope scope = .ok () ∧
      ∃ proposed, EventStore.canonicalSubmission codec limits p defaultSource scope m s =
          .ok proposed ∧ (submittedValue p proposed).valid = true ∧
        ((∃ row, s.inboxRow? (scope, proposed.source, proposed.id) = some row ∧
            repeated codec row (codec.digest (submittedValue p proposed)) proposed = .ok e ∧
            s' = s) ∨
          (s.inboxRow? (scope, proposed.source, proposed.id) = none ∧ e = proposed ∧
            arrivalCapacity codec limits proposed scope s = .ok () ∧
            s' = storeArrival (s.arrivalRow codec proposed scope
              (codec.digest (submittedValue p proposed)) m.clock) s)) := by
  simp only [ingestInTransaction, run_eq_ok, jsonText_eq_ok] at h
  obtain ⟨hscope, proposed, hsubmission, hvalid, hrest⟩ := h
  refine ⟨hscope, proposed, hsubmission, hvalid, ?_⟩
  cases hfind : s.inboxRow? (scope, proposed.source, proposed.id) with
  | some row =>
    simp only [hfind, admitOrRepeat, orRaiseError_eq_ok] at hrest
    exact Or.inl ⟨row, rfl, hrest.1, hrest.2.symm⟩
  | none =>
    simp only [hfind, admitOrRepeat, admitNew, run_eq_ok] at hrest
    obtain ⟨hcapacity, rfl, rfl⟩ := hrest
    exact Or.inr ⟨rfl, rfl, hcapacity, rfl⟩

theorem ingestInTransaction_moves (ht : Tables sys.codec sys.limits s)
    (h : (ingestInTransaction sys.codec sys.limits p defaultSource scope m).run s = .ok (e, s')) :
    Moves sys s s' ∧ s'.outbox = s.outbox ∧ ∃ proposed,
      EventStore.canonicalSubmission sys.codec sys.limits p defaultSource scope m s = .ok proposed ∧
      (s'.inboxRow? (scope, proposed.source, proposed.id)).isSome = true := by
  obtain ⟨hscope, proposed, hsubmission, -, ⟨row, hfind, -, rfl⟩ | ⟨hfind, -, hcapacity, rfl⟩⟩ :=
    ingestInTransaction_eq_ok h
  · exact ⟨.refl, rfl, proposed, hsubmission, by rw [hfind]; rfl⟩
  · have hmove := Move.arrive (sys.codec.digest (submittedValue p proposed)) m.clock hscope
      hsubmission hfind hcapacity
    refine ⟨.single hmove, rfl, proposed, hsubmission, ?_⟩
    have hrow := (hmove.tables ht).inboxRow?
      (List.mem_append_right s.inbox (List.mem_singleton.mpr rfl))
    exact Option.isSome_iff_exists.mpr ⟨_, hrow⟩

variable {lease : Option ExecutionLease}

theorem publishEffect_moves {requestDigest : String} {operationId : Option String}
    (h : (publishEffect sys.codec sys.limits identity requestDigest p defaultSource scope lease
      operationId m).run s = .ok (receipt, s')) : Moves sys s s' := by
  simp only [publishEffect, run_eq_ok, not_not] at h
  obtain ⟨hop, hscope, howned⟩ := h
  have hbody := owned_eq_ok howned
  simp only [run_eq_ok] at hbody
  obtain ⟨-, existing, hread, hrest⟩ := hbody
  cases existing with
  | some =>
    simp only [publishOrRepeat, run_eq_ok] at hrest
    obtain ⟨-, -, -, rfl⟩ := hrest
    exact .refl
  | none =>
    simp only [publishOrRepeat, publishNew, run_eq_ok] at hrest
    obtain ⟨_, _, hterminal, -, e, hsubmission, hcapacity, htaken, hinsert⟩ := hrest
    obtain rfl := invocationTerminal_eq_ok hterminal
    obtain ⟨hmake, rfl⟩ := insertReceipt_eq_ok hinsert
    have hnew : ∀ row ∈ s.outbox, row.identity ≠ sys.codec.key identity := by
      intro row hrow heq
      exact htaken (List.any_eq_true.mpr ⟨row, hrow, by simpa using heq⟩)
    exact .single (.publish hop hscope hread hsubmission hcapacity hnew hmake)

theorem deliverRows_moves {rows : List OutboxRow} (ht : Tables sys.codec sys.limits s)
    (hrows : ∀ row ∈ rows, row ∈ s.outbox) (hnodup : (rows.map OutboxRow.identity).Nodup)
    (h : (deliverRows sys.codec sys.limits m rows).run s = .ok (u, s')) : Moves sys s s' := by
  induction rows generalizing s with
  | nil =>
    obtain ⟨-, rfl⟩ := pure_eq_ok.mp h
    exact .refl
  | cons row _ ih =>
    simp only [deliverRows, deliverRow, run_eq_ok] at h
    obtain ⟨_, ⟨e, hdecode, x, s₁, hingest, rfl⟩, hrest⟩ := h
    have hrow : row ∈ s.outbox := hrows row List.mem_cons_self
    obtain ⟨hmoves, houtbox, proposed, hsubmission, harrived⟩ :=
      ingestInTransaction_moves ht hingest
    have ht₁ := hmoves.tables ht
    -- the submitted event is the one of the publication
    obtain ⟨x', hx'⟩ := ht.outbox row hrow
    obtain rfl : e = x' := Except.ok.inj (hdecode.symm.trans hx'.decode)
    obtain ⟨-, -, accepted, haccept, hsource, hid, -⟩ := ht.canonicalSubmission hsubmission
    rw [acceptEnvelope_asDict hx'.admissible] at haccept
    obtain rfl := Except.ok.inj haccept
    rw [← hsource, ← hid] at harrived
    have hmark : Move sys s₁ (markDelivered row.identity s₁) :=
      .deliver (houtbox ▸ hrow) hdecode harrived
    rw [List.map_cons, List.nodup_cons] at hnodup
    refine (hmoves.tail hmark).trans (ih (hmark.tables ht₁) ?_ hnodup.2 hrest)
    intro other hother
    refine List.mem_map.mpr ⟨other, ?_, ?_⟩
    · rw [houtbox]
      exact hrows other (List.mem_cons_of_mem row hother)
    · rw [if_neg]
      intro heq
      exact hnodup.1 (heq ▸ List.mem_map_of_mem hother)

theorem deliverOutbox_moves (ht : Tables sys.codec sys.limits s) {n : ℕ}
    (h : (deliverOutbox sys.codec sys.limits limit m).run s = .ok (n, s')) : Moves sys s s' := by
  simp only [deliverOutbox, run_eq_ok] at h
  obtain ⟨-, htransaction⟩ := h
  have hbody := transaction_eq_ok htransaction
  simp only [run_eq_ok] at hbody
  obtain ⟨_, hrows, -, rfl⟩ := hbody
  have hperm : ((s.outbox.filter fun row => !row.delivered).insertionSort
      fun a b => deliveredBefore a b = true).Perm (s.outbox.filter fun row => !row.delivered) :=
    List.perm_insertionSort _ _
  refine deliverRows_moves ht (fun row hrow => ?_) ?_ hrows
  · exact List.mem_of_mem_filter (hperm.mem_iff.mp (List.mem_of_mem_take hrow))
  · have hfiltered : ((s.outbox.filter fun row => !row.delivered).map OutboxRow.identity).Nodup :=
      ht.identities.sublist (List.filter_sublist.map _)
    exact ((hperm.map _).nodup_iff.mpr hfiltered).sublist ((List.take_sublist _ _).map _)

/-! ### Listeners -/

theorem bindInvocation_moves
    (h : (bindInvocation sys.codec identity scope lease).run s = .ok (u, s')) : Moves sys s s' := by
  simp only [bindInvocation, run_eq_ok] at h
  obtain ⟨-, howned⟩ := h
  have hbody := owned_eq_ok howned
  simp only [run_eq_ok] at hbody
  obtain ⟨-, rfl⟩ := hbody
  exact .single .profile

theorem register_moves {strategy : Strategy}
    (h : (register sys.codec sys.limits identity strategy scope lease m).run s = .ok (r, s')) :
    Moves sys s s' := by
  simp only [register, run_eq_ok, not_not] at h
  obtain ⟨hop, hscope, _, -, -, digest, hdigest, howned⟩ := h
  have hbody := owned_eq_ok howned
  simp only [run_eq_ok] at hbody
  cases hknown : (s.subscriptions.lookup (sys.codec.key identity)).isSome with
  | true =>
    simp only [hknown, registerOrRepeat, run_eq_ok] at hbody
    obtain ⟨-, _, -, -, rfl⟩ := hbody
    exact .refl
  | false =>
    simp only [hknown, registerOrRepeat, registerNew, run_eq_ok, Bool.not_eq_false] at hbody
    obtain ⟨-, _, _, hterminal, -, -, hvalid, receipt, _, hinsert, rfl, rfl⟩ := hbody
    obtain rfl := invocationTerminal_eq_ok hterminal
    obtain ⟨hmake, rfl⟩ := insertReceipt_eq_ok hinsert
    have hnew : s.subscriptions.lookup (sys.codec.key identity) = none :=
      Option.isNone_iff_eq_none.mp (by simpa using hknown)
    refine .single (.register (r := ⟨identity, digest, scope⟩) hop hscope hdigest hnew rfl ?_
      hvalid hmake)
    -- the watermark of the invocation is there, at least as 0
    cases hold : s.consumers.lookup identity.invocationId with
    | none =>
      rw [Table.lookup_insertNew_self_of_none hold]
      rfl
    | some =>
      rw [Table.lookup_insertNew_of_some hold]
      rfl

theorem recordUnlessTerminator_eq_ok {p next : SubscriptionPayload} {d : EventDecision}
    {picked : Option EffectReceipt}
    (h : (recordUnlessTerminator codec r p row e d).run s = .ok ((next, picked), s')) :
    SelectionReceipt codec r p.selectionCount row e d picked ∧ next = countedIf p picked ∧
      s' = selectedIf codec r p.selectionCount row picked s := by
  unfold recordUnlessTerminator at h
  by_cases hterminator : d.terminator = true
  · rw [if_pos hterminator, pure_eq_ok, Prod.mk.injEq] at h
    obtain ⟨⟨rfl, rfl⟩, rfl⟩ := h
    exact ⟨hterminator, rfl, rfl⟩
  · rw [if_neg hterminator] at h
    simp only [recordSelection, run_eq_ok, Prod.mk.injEq] at h
    obtain ⟨_, _, ⟨digest, hdigest, receipt, _, hinsert, -, rfl, rfl⟩, ⟨rfl, rfl⟩, rfl⟩ := h
    obtain ⟨hmake, rfl⟩ := insertReceipt_eq_ok hinsert
    have hfields := EffectReceipt.make_eq_ok hmake
    have hd : receipt.requestDigest = digest := congrArg ReceiptFields.requestDigest hfields
    exact ⟨⟨Bool.eq_false_iff.mpr hterminator, by rw [hd, hdigest], by rw [hd, hfields]⟩, rfl, rfl⟩

theorem recordFinal_eq_ok {events : List EventEnvelope} {terminal : Bool}
    (h : (recordFinal codec r events terminal).run s = .ok (u, s')) :
    ∃ final, FinalReceipt r events terminal final ∧ s' = finished codec r final s := by
  unfold recordFinal at h
  by_cases hterminal : terminal = true
  · rw [if_pos hterminal] at h
    simp only [run_eq_ok] at h
    obtain ⟨receipt, _, hinsert, -, rfl⟩ := h
    obtain ⟨hmake, rfl⟩ := insertReceipt_eq_ok hinsert
    exact ⟨some receipt, ⟨hterminal, EffectReceipt.make_eq_ok hmake⟩, rfl⟩
  · rw [if_neg hterminal, pure_eq_ok] at h
    exact ⟨none, Bool.eq_false_iff.mpr hterminal, h.2.symm⟩

variable {a : EventProgress}

theorem closeListener_moves {p : SubscriptionPayload}
    (hrow : readRow sys.codec r s = .ok (p, .pending))
    (h : (closeListener sys.codec r p).run s = .ok (a, s')) : Moves sys s s' := by
  simp only [closeListener, run_eq_ok] at h
  obtain ⟨_, hsave, -, rfl⟩ := h
  obtain ⟨receipt, hreceipt, rfl⟩ := saveProgress_eq_ok hsave
  exact .single (.close hrow hreceipt)

theorem scanBatch_moves {p : SubscriptionPayload} {current : EventProgress}
    {evaluate : EventEvaluator} (hevaluate : sys.evaluates r evaluate)
    (hrow : readRow sys.codec r s = .ok (p, .pending))
    (hstate : readState sys.codec r s = .ok current)
    (h : (scanBatch sys.codec sys.limits evaluate r current p).run s = .ok (a, s')) :
    Moves sys s s' := by
  simp only [scanBatch, run_eq_ok] at h
  obtain ⟨⟨passed, hit⟩, hscan, hsettle⟩ := h
  unfold settleScan at hsettle
  cases hit with
  | none =>
    simp only [passBatch] at hsettle
    cases hlast : passed.getLast? with
    | none =>
      simp only [hlast, pure_eq_ok] at hsettle
      rw [hsettle.2]
    | some =>
      simp only [hlast, run_eq_ok] at hsettle
      obtain ⟨_, hsave, -, rfl⟩ := hsettle
      obtain ⟨receipt, hreceipt, rfl⟩ := saveProgress_eq_ok hsave
      exact .single (.pass hrow hstate hevaluate hscan hlast hreceipt)
  | some hit =>
    obtain ⟨row, e, d⟩ := hit
    simp only [selectEvent, run_eq_ok, jsonText_eq_ok, not_lt] at hsettle
    obtain ⟨happroved, correlations, hbindings, hvalid, hsize, ⟨next, picked⟩, _, hrecord, _,
      hsave, _, hfinal, _, -, -, rfl⟩ := hsettle
    obtain ⟨hpicked, rfl, rfl⟩ := recordUnlessTerminator_eq_ok hrecord
    obtain ⟨receipt, hreceipt, rfl⟩ := saveProgress_eq_ok hsave
    obtain ⟨final, hfinalReceipt, rfl⟩ := recordFinal_eq_ok hfinal
    exact .single (.select ⟨hrow, hstate, ⟨evaluate, hevaluate, hscan⟩, happroved, hbindings,
      hvalid, hsize⟩ hpicked hfinalReceipt hreceipt)

theorem select_moves {evaluate : EventEvaluator} (hevaluate : sys.evaluates r evaluate)
    (h : (select sys.codec sys.limits r evaluate lease).run s = .ok (a, s')) : Moves sys s s' := by
  have hbody := owned_eq_ok h
  simp only [run_eq_ok] at hbody
  obtain ⟨⟨p, status⟩, hrow, current, hstate, hrest⟩ := hbody
  by_cases hpending : status = .pending
  · subst hpending
    simp only [ne_eq, not_true_eq_false, if_false, selectPending, bind_eq_ok] at hrest
    obtain ⟨terminal, _, hterminal, hrest⟩ := hrest
    obtain rfl := invocationTerminal_eq_ok hterminal
    cases terminal with
    | true => exact closeListener_moves hrow hrest
    | false => exact scanBatch_moves hevaluate hrow hstate hrest
  · simp only [ne_eq, hpending, not_false_eq_true, if_true, pure_eq_ok] at hrest
    rw [hrest.2]

theorem complete_moves
    (hstrategy : ∀ row, s.subscriptions.lookup (sys.codec.key r.identity) = some row →
      row.payload.strategy.completeWithoutEvents = true)
    (h : (complete sys.codec r lease).run s = .ok (a, s')) : Moves sys s s' := by
  have hbody := owned_eq_ok h
  simp only [run_eq_ok] at hbody
  obtain ⟨⟨p, status⟩, hrow, current, hstate, hrest⟩ := hbody
  obtain ⟨row, hlookup, rfl, rfl, -⟩ := readRow_eq_ok hrow
  obtain ⟨hcompleted, hclosed, -⟩ := readState_of_row hrow hstate
  by_cases hended : current.closed = true ∨ current.completed = true
  · rw [if_pos hended, pure_eq_ok] at hrest
    rw [hrest.2]
  · rw [if_neg hended] at hrest
    -- neither completed nor closed is pending
    have hpending : row.status = .pending := by
      rw [not_or, hclosed, hcompleted, decide_eq_true_eq, decide_eq_true_eq] at hended
      cases hst : row.status with
      | pending => rfl
      | completed => exact absurd hst hended.2
      | closed => exact absurd hst hended.1
    rw [hpending] at hrow
    simp only [completePending, bind_eq_ok] at hrest
    obtain ⟨terminal, _, hterminal, hrest⟩ := hrest
    obtain rfl := invocationTerminal_eq_ok hterminal
    cases terminal with
    | true => exact closeListener_moves hrow hrest
    | false =>
      simp only [Bool.false_eq_true, if_false, run_eq_ok] at hrest
      obtain ⟨_, hfinal, _, hsave, -, rfl⟩ := hrest
      obtain ⟨final, hfinalReceipt, rfl⟩ := recordFinal_eq_ok hfinal
      obtain ⟨receipt, hreceipt, rfl⟩ := saveProgress_eq_ok hsave
      cases final with
      | none => exact absurd hfinalReceipt (by simp [FinalReceipt])
      | some =>
        exact .single (.complete hrow hstate (hstrategy row hlookup) hfinalReceipt hreceipt)

theorem abandon_moves (h : (abandon sys.codec r lease).run s = .ok (u, s')) :
    Moves sys s s' := by
  have hbody := owned_eq_ok h
  simp only [run_eq_ok] at hbody
  obtain ⟨⟨p, status⟩, hrow, hrest⟩ := hbody
  by_cases hpending : status = .pending
  · subst hpending
    rw [if_pos rfl] at hrest
    obtain ⟨receipt, hreceipt, rfl⟩ := saveProgress_eq_ok hrest
    exact .single (.close hrow hreceipt)
  · rw [if_neg hpending, pure_eq_ok] at hrest
    rw [hrest.2]

theorem closeRows_moves {rows : List (String × SubscriptionRow)}
    (hrows : ∀ x ∈ rows, s.subscriptions.lookup x.1 = some x.2 ∧ x.2.status = .pending ∧
      x.1 = sys.codec.key x.2.payload.identity) (hnodup : (rows.map Prod.fst).Nodup)
    (h : (closeRows sys.codec (rows.map fun x => x.2.payload)).run s = .ok (u, s')) :
    Moves sys s s' := by
  induction rows generalizing s with
  | nil =>
    obtain ⟨-, rfl⟩ := pure_eq_ok.mp h
    exact .refl
  | cons x _ ih =>
    simp only [List.map_cons, closeRows, run_eq_ok] at h
    obtain ⟨⟨p, status⟩, hread, _, hsave, hrest⟩ := h
    obtain ⟨hlookup, hpending, hkey⟩ := hrows x List.mem_cons_self
    obtain ⟨row, hrow, rfl, rfl, -⟩ := readRow_eq_ok hread
    -- the row that is read again is the selected one
    have hsame : row = x.2 := by
      rw [hkey] at hlookup
      exact Option.some.inj (hrow.symm.trans hlookup)
    subst hsame
    rw [hpending] at hread
    obtain ⟨receipt, hreceipt, rfl⟩ := saveProgress_eq_ok hsave
    rw [List.map_cons, List.nodup_cons] at hnodup
    refine .head (.close hread hreceipt) (ih (fun y hy => ?_) hnodup.2 hrest)
    obtain ⟨hylookup, hrest⟩ := hrows y (List.mem_cons_of_mem x hy)
    refine ⟨?_, hrest⟩
    have hne : y.1 ≠ sys.codec.key x.2.payload.registration.identity := by
      intro heq
      exact hnodup.1 (hkey.trans heq.symm ▸ List.mem_map_of_mem hy)
    rw [← hylookup]
    exact Table.lookup_updateWhere_ne hne

theorem closeInvocation_moves (ht : Tables sys.codec sys.limits s)
    {invocationId fingerprint : String}
    (h : (closeInvocation sys.codec invocationId fingerprint).run s = .ok (u, s')) :
    Moves sys s s' := by
  have hbody := transaction_eq_ok h
  simp only [onJournal, run_eq_ok, zoom_eq_ok] at hbody
  obtain ⟨handle, _, hget, -, hclose⟩ := hbody
  rw [← (Invocations.getInvocation_eq_ok hget).1] at hclose
  refine closeRows_moves (fun x hx => ?_) ?_ hclose
  · rw [Table.mem_selectRows, decide_eq_true_eq] at hx
    obtain ⟨hx, -, -, hpending⟩ := hx
    have hlookup := Table.mem_rows.mp hx
    exact ⟨hlookup, hpending, ht.keyed x.1 x.2 hlookup⟩
  · exact (Table.nodup_rows_keys s.subscriptions).sublist (List.filter_sublist.map _)

/-! ### Consumers and retention -/

variable {consumerKey : String}

theorem retainSelections_moves {pin : ConsumerPin} {arrivals : List Arrival}
    (h : (retainSelections sys.codec consumerKey pin arrivals).run s = .ok (u, s')) :
    Moves sys s s' ∧ s'.pins = s.pins ∧ s'.counter = s.counter := by
  induction arrivals generalizing s with
  | nil =>
    obtain ⟨-, rfl⟩ := pure_eq_ok.mp h
    exact ⟨.refl, rfl, rfl⟩
  | cons _ _ ih =>
    simp only [retainSelections, run_eq_ok] at h
    obtain ⟨hcheck, hrest⟩ := h
    obtain ⟨hmoves, hpins, hcounter⟩ := ih hrest
    refine ⟨.head (.retain hcheck) hmoves, hpins.trans ?_, hcounter.trans ?_⟩
    · unfold retainSelection
      split <;> rfl
    · unfold retainSelection
      split <;> rfl

theorem readPin_eq_ok {o : Option ConsumerPin} (h : readPin consumerKey s = .ok o) :
    s.pins.lookup consumerKey = o := by
  unfold readPin at h
  cases hl : s.pins.lookup consumerKey with
  | none =>
    rw [hl] at h
    exact Except.ok.inj h
  | some =>
    simp only [hl, except_bind_eq_ok] at h
    obtain ⟨_, -, h⟩ := h
    exact Except.ok.inj h

theorem pinConsumer_moves {pin : ConsumerPin} {arrivals : List Arrival}
    (h : (pinConsumer sys.codec sys.limits consumerKey pin arrivals).run s = .ok (u, s')) :
    Moves sys s s' := by
  simp only [pinConsumer, run_eq_ok, not_lt] at h
  obtain ⟨-, -, existing, hexisting, hcounter, hcheck, s₁, hretain, rfl⟩ := h
  obtain ⟨hmoves, hpins, hcounter₁⟩ := retainSelections_moves hretain
  have hlookup := readPin_eq_ok hexisting
  have hkept : ∀ old, existing = some old → old.scope = pin.scope ∧ old.cursor ≤ pin.cursor ∧
      (pin.active = true → old.active = true) := by
    rintro old rfl
    simp only [checkPin, except_raiseIf_eq_ok, not_or, not_not, not_lt, not_and,
      Bool.not_eq_true] at hcheck
    refine ⟨hcheck.1, hcheck.2.1, fun hactive => ?_⟩
    by_contra hold
    rw [hcheck.2.2 (Bool.eq_false_iff.mpr hold)] at hactive
    cases hactive
  have hpin : (⟨(existing.map ConsumerPin.scope).getD pin.scope, pin.cursor, pin.active⟩ :
      ConsumerPin) = pin := by
    cases existing with
    | none => rfl
    | some old =>
      rw [Option.map_some, Option.getD_some, (hkept old rfl).1]
  rw [hpin]
  exact hmoves.tail (.pin (by rw [hpins, hlookup]) (hcounter₁ ▸ hcounter) hkept)

theorem pruneRows_moves {rows : List InboxRow} {n : ℕ}
    (hrows : ∀ row ∈ rows, row ∈ s.inbox ∧ s.isSelected row = false)
    (hnodup : (rows.map InboxRow.sequence).Nodup)
    (h : (pruneRows sys.codec rows).run s = .ok (n, s')) : Moves sys s s' := by
  induction rows generalizing s n with
  | nil =>
    obtain ⟨-, rfl⟩ := pure_eq_ok.mp h
    exact .refl
  | cons row rest ih =>
    simp only [pruneRows, run_eq_ok] at h
    obtain ⟨removable, hremovable, _, s₁, hdelete, more, _, hrest, -, rfl⟩ := h
    rw [List.map_cons, List.nodup_cons] at hnodup
    have hothers : ∀ other ∈ rest, other ∈ s.inbox ∧ s.isSelected other = false :=
      fun other hother => hrows other (List.mem_cons_of_mem row hother)
    cases removable with
    | false =>
      simp only [deleteIf, Bool.false_eq_true, if_false, pure_eq_ok] at hdelete
      obtain ⟨-, rfl⟩ := hdelete
      exact ih hothers hnodup.2 hrest
    | true =>
      simp only [deleteIf, if_true, run_eq_ok] at hdelete
      obtain ⟨-, rfl⟩ := hdelete
      obtain ⟨hrow, hselected⟩ := hrows row List.mem_cons_self
      refine .head (.prune hrow hselected hremovable)
        (ih (fun other hother => ?_) hnodup.2 hrest)
      obtain ⟨hmem, hsel⟩ := hothers other hother
      refine ⟨List.mem_filter.mpr ⟨hmem, ?_⟩, hsel⟩
      rw [decide_eq_true_eq]
      intro heq
      exact hnodup.1 (heq ▸ List.mem_map_of_mem hother)

theorem mem_expired {cutoff : ℚ} (h : row ∈ s.expired cutoff limit) :
    row ∈ s.inbox ∧ row.createdAt < cutoff ∧ s.isSelected row = false := by
  have hmem := (List.perm_insertionSort _ _).mem_iff.mp (List.mem_of_mem_take h)
  rw [List.mem_filter, decide_eq_true_eq] at hmem
  exact hmem

theorem nodup_expired (ht : Tables codec limits s) (cutoff : ℚ) (limit : ℕ) :
    ((s.expired cutoff limit).map InboxRow.sequence).Nodup := by
  have hinbox : (s.inbox.map InboxRow.sequence).Nodup := by
    rw [List.Nodup, List.pairwise_map]
    exact ht.sorted.imp fun h => Nat.ne_of_lt h
  have hfiltered := hinbox.sublist (List.filter_sublist (p := fun row =>
    decide (row.createdAt < cutoff ∧ s.isSelected row = false)).map InboxRow.sequence)
  exact (((List.perm_insertionSort _ _).map _).nodup_iff.mpr hfiltered).sublist
    ((List.take_sublist _ _).map _)

theorem prune_moves (ht : Tables sys.codec sys.limits s) {now : ℚ} {n : ℕ}
    (h : (prune sys.codec sys.limits now limit).run s = .ok (n, s')) : Moves sys s s' := by
  simp only [prune, run_eq_ok] at h
  obtain ⟨-, htransaction⟩ := h
  have hbody := transaction_eq_ok htransaction
  simp only [run_eq_ok] at hbody
  have hrows := hbody
  exact pruneRows_moves (fun row hrow => ⟨(mem_expired hrow).1, (mem_expired hrow).2.2⟩)
    (nodup_expired ht _ _) hrows

/-! ## Runs -/

/-- The operations.  A pin is moved inside of the transaction of its consumer. -/
inductive Operation where
  | ingest (p : Properties) (defaultSource scope : String) (m : Moment)
  | publish (identity : EffectIdentity) (requestDigest : String) (p : Properties)
      (defaultSource scope : String) (lease : Option ExecutionLease) (operationId : Option String)
      (m : Moment)
  | deliver (limit : ℕ) (m : Moment)
  | bindInvocation (identity : EffectIdentity) (scope : String) (lease : Option ExecutionLease)
  | register (identity : EffectIdentity) (strategy : Strategy) (scope : String)
      (lease : Option ExecutionLease) (m : Moment)
  | select (r : EventRegistration) (evaluate : EventEvaluator) (lease : Option ExecutionLease)
  | complete (r : EventRegistration) (lease : Option ExecutionLease)
  | abandon (r : EventRegistration) (lease : Option ExecutionLease)
  | closeInvocation (invocationId fingerprint : String)
  | pin (consumerKey : String) (moved : ConsumerPin) (selected : List Arrival)
  | prune (now : ℚ) (limit : ℕ)

/-- The answer of a transaction is dropped. -/
def ignore {α : Type} (t : Transaction OwaError EventStore α) :
    Transaction OwaError EventStore Unit := do
  let _ ← t
  return ()

theorem ignore_eq_ok {α : Type} {t : Transaction OwaError EventStore α}
    (h : (ignore t).run s = .ok (u, s')) : ∃ a, t.run s = .ok (a, s') := by
  simp only [ignore, run_eq_ok] at h
  obtain ⟨a, _, hrun, -, rfl⟩ := h
  exact ⟨a, hrun⟩

theorem ignore_run {α : Type} {t : Transaction OwaError EventStore α} {a : α}
    (h : t.run s = .ok (a, s')) : (ignore t).run s = .ok ((), s') := by
  simp only [ignore, run_eq_ok]
  exact ⟨a, s', h, trivial, rfl⟩

def Operation.run (codec : EventCodec) (limits : EventStoreLimits) :
    Operation → Transaction OwaError EventStore Unit
  | ingest p source scope m => ignore (EventStore.ingest codec limits p source scope m)
  | publish identity digest p source scope lease operationId m =>
    ignore (publishEffect codec limits identity digest p source scope lease operationId m)
  | deliver limit m => ignore (deliverOutbox codec limits limit m)
  | bindInvocation identity scope lease => EventStore.bindInvocation codec identity scope lease
  | register identity strategy scope lease m =>
    ignore (EventStore.register codec limits identity strategy scope lease m)
  | select r evaluate lease => ignore (EventStore.select codec limits r evaluate lease)
  | complete r lease => ignore (EventStore.complete codec r lease)
  | abandon r lease => EventStore.abandon codec r lease
  | closeInvocation invocationId fingerprint =>
    EventStore.closeInvocation codec invocationId fingerprint
  | pin consumerKey moved selected =>
    transaction (pinConsumer codec limits consumerKey moved selected)
  | prune now limit => ignore (EventStore.prune codec limits now limit)

/-- What the callers promise: a listener is evaluated with an evaluator of its own, and only a
listener that needs no event is completed. -/
def Operation.Promised (sys : System) (s : EventStore) : Operation → Prop
  | select r evaluate _ => sys.evaluates r evaluate
  | complete r _ => ∀ row, s.subscriptions.lookup (sys.codec.key r.identity) = some row →
      row.payload.strategy.completeWithoutEvents = true
  | _ => True

/-- **What an operation commits.**  A committed operation is a sequence of moves. -/
theorem operation_moves {op : Operation} (ht : Tables sys.codec sys.limits s)
    (hop : op.Promised sys s) (h : (op.run sys.codec sys.limits).run s = .ok (u, s')) :
    Moves sys s s' := by
  cases op with
  | ingest =>
    obtain ⟨e, hrun⟩ := ignore_eq_ok h
    exact (ingestInTransaction_moves ht (transaction_eq_ok hrun)).1
  | publish =>
    obtain ⟨receipt, hrun⟩ := ignore_eq_ok h
    exact publishEffect_moves hrun
  | deliver =>
    obtain ⟨n, hrun⟩ := ignore_eq_ok h
    exact deliverOutbox_moves ht hrun
  | bindInvocation => exact bindInvocation_moves h
  | register =>
    obtain ⟨r, hrun⟩ := ignore_eq_ok h
    exact register_moves hrun
  | select =>
    obtain ⟨a, hrun⟩ := ignore_eq_ok h
    exact select_moves hop hrun
  | complete =>
    obtain ⟨a, hrun⟩ := ignore_eq_ok h
    exact complete_moves hop hrun
  | abandon => exact abandon_moves h
  | closeInvocation => exact closeInvocation_moves ht h
  | pin => exact pinConsumer_moves (transaction_eq_ok h)
  | prune =>
    obtain ⟨n, hrun⟩ := ignore_eq_ok h
    exact prune_moves ht hrun

/-- One step of the system: an operation of some process, committed or rolled back, or a change of
another component. -/
inductive Step (sys : System) (s : EventStore) : EventStore → Prop
  | call {op : Operation} (hop : op.Promised sys s) :
      Step sys s ((op.run sys.codec sys.limits).after s)
  | environment {s' : EventStore} (h : Environment sys.codec s s') : Step sys s s'

abbrev Steps (sys : System) : EventStore → EventStore → Prop := Relation.ReflTransGen (Step sys)

/-- The store before its first operation. -/
structure Fresh (codec : EventCodec) (s : EventStore) : Prop where
  counter : s.counter = 0
  inbox : s.inbox = []
  outbox : s.outbox = []
  subscriptions : s.subscriptions = ∅
  selections : s.selections = []
  consumers : s.consumers = ∅
  pins : s.pins = ∅
  consumerSelections : s.consumerSelections = []
  arrivals : s.arrivals = []
  logs : s.logs = ∅
  receipts : ∀ identity : EffectIdentity, identity.operation ∈ eventOperations →
    s.journal.effects.lookup (codec.key identity) = none ∧
      s.journal.effectInvocations.lookup (codec.key identity) = none

/-- A store that a run of the system leads to. -/
def Reachable (sys : System) (s : EventStore) : Prop := ∃ s₀, Fresh sys.codec s₀ ∧ Steps sys s₀ s

theorem Step.cases (ht : Tables sys.codec sys.limits s) (h : Step sys s s') :
    Moves sys s s' ∨ Environment sys.codec s s' := by
  cases h with
  | call hop =>
    refine Or.inl ?_
    exact after_induction (P := Moves sys s) .refl fun u s' hrun => operation_moves ht hop hrun
  | environment henv => exact Or.inr henv

theorem Environment.tables_congr (h : Environment codec s s') (ht : Tables codec limits s) :
    Tables codec limits s' := by
  rw [h.tables]
  exact ht.congr rfl rfl rfl ht.keyed

/-- What every move keeps is kept by the moves of one operation. -/
theorem Moves.keeps {I : EventStore → Prop}
    (hmove : ∀ s s', Tables sys.codec sys.limits s → I s → Move sys s s' → I s')
    (h : Moves sys s s') (ht : Tables sys.codec sys.limits s) (hI : I s) : I s' := by
  induction h with
  | refl => exact hI
  | tail hmoves hlast ih => exact hmove _ _ (Moves.tables hmoves ht) ih hlast

/-- **Invariants of runs.**  What the first store has, and what every move and every change of
another component keeps, holds in every reachable store. -/
theorem Reachable.induction {I : EventStore → Prop} (hfresh : ∀ s, Fresh sys.codec s → I s)
    (hmove : ∀ s s', Tables sys.codec sys.limits s → I s → Move sys s s' → I s')
    (henvironment : ∀ s s', I s → Environment sys.codec s s' → I s') (h : Reachable sys s) :
    Tables sys.codec sys.limits s ∧ I s := by
  obtain ⟨s₀, h₀, hsteps⟩ := h
  have htables : Tables sys.codec sys.limits s₀ := by
    constructor <;> simp [Carries, h₀.inbox, h₀.outbox, h₀.subscriptions]
  induction hsteps with
  | refl => exact ⟨htables, hfresh s₀ h₀⟩
  | tail _ hlast ih =>
    obtain ⟨ht, hI⟩ := ih
    rcases hlast.cases ht with hmoves | henv
    · exact ⟨hmoves.tables ht, hmoves.keeps hmove ht hI⟩
    · exact ⟨henv.tables_congr ht, henvironment _ _ hI henv⟩

theorem Reachable.tables (h : Reachable sys s) : Tables sys.codec sys.limits s :=
  (h.induction (I := fun _ => True) (fun _ _ => trivial) (fun _ _ _ _ _ => trivial)
    fun _ _ _ _ => trivial).1

theorem Reachable.steps (h : Reachable sys s) (hsteps : Steps sys s s') : Reachable sys s' := by
  obtain ⟨s₀, h₀, hrun⟩ := h
  exact ⟨s₀, h₀, hrun.trans hsteps⟩

theorem Reachable.call (h : Reachable sys s) (op : Operation) (hop : op.Promised sys s) :
    Reachable sys ((op.run sys.codec sys.limits).after s) :=
  h.steps (.single (.call hop))

/-! ## A system to evaluate -/

/-- The store as its constructor makes it, over empty tables of the other components. -/
def initial : EventStore where
  journal := ⟨⟨⟨0, ∅⟩, ∅, ∅, ∅, []⟩, ∅, ∅, ∅, []⟩
  counter := 0
  inbox := []
  outbox := []
  subscriptions := ∅
  selections := []
  consumers := ∅
  profiles := ∅
  pins := ∅
  consumerSelections := []
  approvals := ⟨fun _ _ => .ok (), fun _ => false⟩
  arrivals := []
  logs := ∅

theorem initial_reachable (sys : System) : Reachable sys initial :=
  ⟨initial, ⟨rfl, rfl, rfl, rfl, rfl, rfl, rfl, rfl, rfl, rfl, fun _ _ => ⟨rfl, rfl⟩⟩, .refl⟩

/-- Identities are their own keys, and every text has one byte. -/
def plainCodec : EventCodec where
  key := EffectIdentity.text
  hash _ := "hash"
  bytes _ := 1
  request _ _ := "0123456789abcdef0123456789abcdef0123456789abcdef0123456789abcdef"
  text _ := "text"

/-- The plain codec under the limits of the configuration, for any evaluator. -/
def plainSystem : System := ⟨plainCodec, .standard, fun _ _ => True⟩

end EventStore
