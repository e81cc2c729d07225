/-
# What the schedule store commits

One committed operation of the schedule store does one of ten things, listed by
`Schedules.Change` with everything the operation checked.  `operation_change` says that
the list is complete; every invariant of schedules is proved over it, and no later
proof unfolds an operation.

A run of the system interleaves operations of any number of schedulers with the
commits of the invocation store, which shares the database.
-/
import OpenWorkflowAgent.Schedules

open Transaction

namespace Schedules

variable {A : Type} {sv : ScheduleServices A}

/-! ## Reading -/

/-- What `_get` has checked of a record it answers. -/
structure Evidence (sv : ScheduleServices A) (s : ScheduleStore A) (scheduleId : String)
    (row : ScheduleRow) (record : ScheduleRecord) : Prop where
  stored : s.schedules.lookup scheduleId = some row
  record_eq : record = { row.payload with leaseUntil := row.leaseUntil }
  status : row.payload.status = row.status
  nextRunAt : row.payload.nextRunAt = row.nextRunAt
  valid : definitionValid record.definition = true
  definition : s.definitions.lookup scheduleId = some record.definition
  occurrences : record.definition.kind ≠ .on → occurrencesAgree s scheduleId record.nextSequence
  profile : ∃ profile, profileOf sv record.definition = .ok profile ∧
    profile.kind = record.definition.kind ∧
    profile.intervalSeconds = record.definition.intervalSeconds
  authority : verifyAuthority sv s record = .ok ()

variable {s : ScheduleStore A} {scheduleId : String} {record : ScheduleRecord}

/-- A row passes every check exactly when its record has the evidence. -/
theorem checkRow_eq_ok {row : ScheduleRow} (hrow : s.schedules.lookup scheduleId = some row) :
    checkRow sv s scheduleId row = .ok record ↔ Evidence sv s scheduleId row record := by
  simp only [checkRow, except_eq_ok]
  constructor
  · rintro ⟨hcols, hvalid, hdef, hocc, profile, hprof, hkind, hauth, heq⟩
    obtain rfl := Except.ok.inj heq
    simp only [not_or, not_and, not_not, ne_eq, Bool.not_eq_false] at hcols hvalid hdef hocc hkind
    exact ⟨hrow, rfl, hcols.1, hcols.2, hvalid, hdef, hocc, ⟨profile, hprof, hkind⟩, hauth⟩
  · rintro ⟨-, rfl, hst, hnext, hvalid, hdef, hocc, ⟨profile, hprof, hkind⟩, hauth⟩
    refine ⟨?_, ?_, ?_, ?_, profile, hprof, ?_, hauth, rfl⟩
    · simp only [hst, hnext, ne_eq, not_true_eq_false, or_self, not_false_eq_true]
    · simp only [hvalid, Bool.true_eq_false, not_false_eq_true]
    · simp only [hdef, ne_eq, not_true_eq_false, not_false_eq_true]
    · exact fun h => h.2 (hocc h.1)
    · simp only [hkind.1, hkind.2, ne_eq, not_true_eq_false, or_self, not_false_eq_true]

theorem readSchedule_eq_some :
    readSchedule sv scheduleId s = .ok (some record) ↔
      ∃ row, Evidence sv s scheduleId row record := by
  unfold readSchedule
  cases hrow : s.schedules.lookup scheduleId with
  | none =>
    simp only [Except.ok.injEq, reduceCtorEq, false_iff, not_exists]
    intro row h
    rw [h.stored] at hrow
    cases hrow
  | some row =>
    have hcheck : checkRow sv s scheduleId row = .ok record ↔
        Evidence sv s scheduleId row record := checkRow_eq_ok hrow
    constructor
    · intro h
      refine ⟨row, hcheck.mp ?_⟩
      cases hc : checkRow sv s scheduleId row with
      | error => simp [hc] at h
      | ok => simpa [hc] using h
    · rintro ⟨row', h⟩
      have hsame : row' = row := by
        have := h.stored
        rw [hrow] at this
        exact (Option.some.inj this).symm
      subst hsame
      simp only [hcheck.mpr h]

variable {s' : ScheduleStore A}

theorem requireSchedule_eq_ok (h : (requireSchedule sv scheduleId).run s = .ok (record, s')) :
    s = s' ∧ ∃ row, Evidence sv s scheduleId row record := by
  simp only [requireSchedule, getSchedule, run_eq_ok] at h
  obtain ⟨_, hfound, rfl, rfl⟩ := h
  exact ⟨rfl, readSchedule_eq_some.mp hfound⟩

variable {u : Unit}

theorem saveSchedule_eq_ok (h : (saveSchedule record).run s = .ok (u, s')) :
    payloadValid record = true ∧ s' = putRecord record s := by
  simp only [saveSchedule, run_eq_ok, Bool.not_eq_false] at h
  obtain ⟨hvalid, rfl⟩ := h
  exact ⟨hvalid, rfl⟩

theorem runtimeTransaction_eq_ok {α : Type} {t : Transaction OwaError RuntimeStore α} {a : α}
    (h : (runtimeTransaction t).run s = .ok (a, s')) :
    ∃ r, t.run s.runtime = .ok (a, r) ∧ s' = { s with runtime := r } := by
  obtain ⟨r, hr, rfl⟩ := zoom_eq_ok.mp h
  exact ⟨r, hr, rfl⟩

variable {row : SlotRow} {key : String × Occurrence}

theorem insertSlot_eq_ok {nominalAt : ℚ} {input : Json}
    (h : (insertSlot key nominalAt input).run s = .ok (row, s')) :
    s.slots.lookup key = none ∧ row = newSlot nominalAt input ∧
      s' = { s with slots := s.slots.put key (newSlot nominalAt input) } := by
  simp only [insertSlot, run_eq_ok, not_not] at h
  obtain ⟨-, hnone, rfl, rfl⟩ := h
  exact ⟨hnone, rfl, rfl⟩

variable {claim : ScheduleClaim}

theorem fence_eq_ok {now : ℚ} (h : (fence claim now).run s = .ok (row, s')) :
    s = s' ∧ s.slots.lookup claim.key = some row ∧ Fences row claim now := by
  simp only [fence, run_eq_ok, not_not] at h
  obtain ⟨_, hrow, hfence, rfl, rfl⟩ := h
  exact ⟨rfl, hrow, hfence⟩

/-! ## Bindings -/

variable {handle : ExecutionHandle}

theorem verifyTerminal_eq_ok (h : (verifyTerminal sv handle).run s = .ok (u, s')) :
    s = s' := by
  unfold verifyTerminal at h
  split at h
  · simp only [run_eq_ok] at h
    obtain ⟨_, _, hrun, -, rfl⟩ := h
    obtain ⟨r, hr, rfl⟩ := runtimeTransaction_eq_ok hrun
    obtain ⟨rfl, -⟩ := Invocations.terminalCompletedAtInTransaction_eq_ok hr
    rfl
  · exact (pure_eq_ok.mp h).2

/-- The binding of a slot is read: the handle is the stored record of the slot's
invocation, and its identity is the saved one. -/
structure BoundTo (s : ScheduleStore A) (key : String × Occurrence) (row : SlotRow)
    (handle : ExecutionHandle) : Prop where
  saved : s.bindings.lookup key = some (bindingOf handle.record.identity)
  invocation : ∃ id inv, row.invocationId = some id ∧
    s.runtime.invocations.lookup id = some inv ∧ handle.record = inv.payload.record ∧
    handle.record.status = inv.status

theorem binding_eq_ok (h : (binding sv record key row).run s = .ok (handle, s')) :
    s = s' ∧ BoundTo s key row handle := by
  simp only [binding, run_eq_ok] at h
  unfold compareBinding at h
  split at h
  · next saved inv original hsaved hinv _ =>
      simp only [checkBinding, mapError_eq_ok, run_eq_ok, not_or, not_not] at h
      obtain ⟨⟨hsame, hst, -⟩, _, hterm, rfl, rfl⟩ := h
      obtain rfl := verifyTerminal_eq_ok hterm
      obtain ⟨id, hid, hlookup⟩ := Option.bind_eq_some_iff.mp hinv
      exact ⟨rfl, by rw [hsaved, hsame], id, inv, hid, hlookup, rfl, hst⟩
  · cases h

theorem bindAuthority_eq_ok
    (h : (bindAuthority sv record key row handle).run s = .ok (u, s')) :
    ∃ a, s' = { s with authority := a } := by
  unfold bindAuthority at h
  split at h
  · split at h
    · obtain ⟨-, rfl⟩ := pure_eq_ok.mp h
      exact ⟨s.authority, rfl⟩
    · simp only [run_eq_ok] at h
      obtain ⟨a, -, rfl⟩ := h
      exact ⟨a, rfl⟩
  · obtain ⟨-, rfl⟩ := pure_eq_ok.mp h
    exact ⟨s.authority, rfl⟩

theorem reserveSchedule_eq_ok (h : (reserveSchedule sv record).run s = .ok (u, s')) :
    ∃ a, s' = { s with authority := a } := by
  unfold reserveSchedule at h
  split at h
  · obtain ⟨-, rfl⟩ := pure_eq_ok.mp h
    exact ⟨s.authority, rfl⟩
  · simp only [run_eq_ok] at h
    obtain ⟨a, -, rfl⟩ := h
    exact ⟨a, rfl⟩

def bindStore (key : String × Occurrence) (record : ScheduleRecord)
    (identity : InvocationIdentity) (r : RuntimeStore) (a : A) (s : ScheduleStore A) :
    ScheduleStore A :=
  { putRecord { record with lastInvocationId := some identity.invocationId }
      (setSlot key (boundSlot identity.invocationId)
        { s with
          runtime := r
          bindings := s.bindings.put key (bindingOf identity) }) with
    authority := a }

def withTriggerSlot (request : TriggerRequest) (s : ScheduleStore A) : ScheduleStore A :=
  { s with slots := s.slots.put request.key (newSlot request.now request.input) }

/-- The store after a trigger bound its slot and left it for a scheduler. -/
def triggerStore (request : TriggerRequest) (record : ScheduleRecord)
    (identity : InvocationIdentity) (r : RuntimeStore) (a : A) (s : ScheduleStore A) :
    ScheduleStore A :=
  setSlot request.key (fun row => { row with state := .pending })
    (bindStore request.key record identity r a s)

/-- What the first binding of a slot has checked and created. -/
structure BindsNew (s : ScheduleStore A) (key : String × Occurrence) (record : ScheduleRecord)
    (row : SlotRow) (engine : String) (fresh : FreshIds) (encoded : Snapshot)
    (r : RuntimeStore) : Prop where
  identity : encoded.record.identity = scheduledIdentity record engine fresh
  creates : Invocations.Creates encoded s.runtime r
  inputs : r.inputs =
    Invocations.withInput encoded.record.identity (some row.inputPayload) s.runtime.inputs
  unbound : s.bindings.lookup key = none
  unique : ∀ k other, s.slots.lookup k = some other →
    other.invocationId = some encoded.invocationId → k = key
  valid : payloadValid { record with lastInvocationId := some encoded.invocationId } = true

theorem insertBinding_eq_ok {saved : ScheduleBinding}
    (h : (insertBinding key saved).run s = .ok (u, s')) :
    s.bindings.lookup key = none ∧ s' = { s with bindings := s.bindings.put key saved } := by
  simp only [insertBinding, run_eq_ok, not_not] at h
  obtain ⟨hnone, rfl⟩ := h
  exact ⟨hnone, rfl⟩

variable {invocationId engine : String}

theorem setSlotInvocation_eq_ok
    (h : (setSlotInvocation key invocationId).run s = .ok (u, s')) :
    (∀ k row, s.slots.lookup k = some row → row.invocationId = some invocationId → k = key) ∧
      s' = setSlot key (boundSlot invocationId) s := by
  simp only [setSlotInvocation, run_eq_ok, Bool.not_eq_true] at h
  obtain ⟨hfree, rfl⟩ := h
  refine ⟨?_, rfl⟩
  intro k row hrow hid
  by_contra hne
  have hany := List.any_eq_false.mp hfree (k, row) (Table.mem_rows.mpr hrow)
  simp [hne, hid] at hany

theorem bindNew_eq_ok {fresh : FreshIds}
    (h : (bindNew sv record key row engine fresh).run s = .ok (handle, s')) :
    ∃ encoded r a, handle = ⟨encoded.record, some encoded, none⟩ ∧
      BindsNew s key record row engine fresh encoded r ∧
      s' = bindStore key record encoded.record.identity r a s := by
  simp only [bindNew, run_eq_ok] at h
  obtain ⟨_, _, hcreate, _, hinsert, _, hset, _, hsave, _, hauth, rfl, rfl⟩ := h
  obtain ⟨r, hr, rfl⟩ := runtimeTransaction_eq_ok hcreate
  obtain ⟨encoded, -, hident, rfl, hcreates, -, -, hinputs⟩ :=
    Invocations.createInTransaction_eq_ok hr
  obtain ⟨hunbound, rfl⟩ := insertBinding_eq_ok hinsert
  obtain ⟨hunique, rfl⟩ := setSlotInvocation_eq_ok hset
  obtain ⟨hvalid, rfl⟩ := saveSchedule_eq_ok hsave
  obtain ⟨a, rfl⟩ := bindAuthority_eq_ok hauth
  exact ⟨encoded, r, a, rfl, ⟨hident, hcreates, hinputs, hunbound, hunique, hvalid⟩, rfl⟩

theorem bindAgain_eq_ok (h : (bindAgain sv record key row engine).run s = .ok (handle, s')) :
    BoundTo s key row handle ∧ handle.record.identity.engine = engine ∧
      ∃ a, s' = { s with authority := a } := by
  simp only [bindAgain, run_eq_ok, not_not] at h
  obtain ⟨_, _, hbinding, hengine, _, hauth, rfl, rfl⟩ := h
  obtain ⟨rfl, hbound⟩ := binding_eq_ok hbinding
  exact ⟨hbound, hengine, bindAuthority_eq_ok hauth⟩

/-! ## What one committed operation did -/

/-- The record of a schedule whose next occurrence was admitted. -/
def advancedRecord (record : ScheduleRecord) (due : ℚ) : ScheduleRecord :=
  { record with nextSequence := record.nextSequence + 1, nextRunAt := due }

def nextKey (record : ScheduleRecord) : String × Occurrence :=
  (record.definition.scheduleId, .slot record.nextSequence)

/-- The record of a schedule one of whose occurrences was finished. -/
def finishedBase (record : ScheduleRecord) (invocationId : String) (status : FinishStatus) :
    ScheduleRecord :=
  { record with lastInvocationId := some invocationId, lastStatus := some status }

inductive Moves (sv : ScheduleServices A) (s : ScheduleStore A) (record : ScheduleRecord)
    (invocationId : String) (status : FinishStatus) : ScheduleRecord → Prop
  /-- An `after` schedule goes on, one interval after the recorded completion. -/
  | onward (profile : ScheduleProfile) (value : TerminalTime) (due : ℚ)
      (active : record.status = .active) (kind : record.definition.kind = .after)
      (completed : status = .completed) (parsed : profileOf sv record.definition = .ok profile)
      (time : s.runtime.terminalTimes.lookup invocationId = some value)
      (next : ScheduleProfiles.nextDue sv.calendar profile value.completedAt
        record.definition.timezone = .ok due) :
      Moves sv s record invocationId status
        { finishedBase record invocationId status with nextRunAt := due }
  /-- An `after` schedule ends with an occurrence that did not complete. -/
  | ended (active : record.status = .active) (kind : record.definition.kind = .after)
      (failed : status ≠ .completed) :
      Moves sv s record invocationId status
        { finishedBase record invocationId status with status := status.schedule }
  /-- Every other schedule stays where it is. -/
  | stayed (other : ¬ (record.status = .active ∧ record.definition.kind = .after)) :
      Moves sv s record invocationId status (finishedBase record invocationId status)

/-- The store after the next occurrence of a schedule was admitted and claimed. -/
def admitStore (request : ClaimRequest) (record : ScheduleRecord) (due : ℚ)
    (s : ScheduleStore A) : ScheduleStore A :=
  setSlot (nextKey record)
    (fun _ => claimedSlot request (newSlot record.nextRunAt record.definition.inputData))
    (putRecord (advancedRecord record due)
      { s with
        slots := s.slots.put (nextKey record)
          (newSlot record.nextRunAt record.definition.inputData) })

/-- What a scheduler has checked of a slot it claims again. -/
structure Recovers (sv : ScheduleServices A) (s : ScheduleStore A) (request : ClaimRequest)
    (key : String × Occurrence) (schedule : ScheduleRow) (record : ScheduleRecord)
    (row : SlotRow) : Prop where
  evidence : Evidence sv s key.1 schedule record
  active : record.status = .active
  stored : s.slots.lookup key = some row
  is_open : row.state.terminal = false
  expired : ∀ t ∈ row.leaseUntil, t ≤ request.now
  lease : 0 < request.leaseSeconds

/-- What a scheduler has checked of an occurrence it admits. -/
structure Admits (sv : ScheduleServices A) (s : ScheduleStore A) (request : ClaimRequest)
    (scheduleId : String) (schedule : ScheduleRow) (record : ScheduleRecord)
    (profile : ScheduleProfile) (due : ℚ) : Prop where
  evidence : Evidence sv s scheduleId schedule record
  active : schedule.status = .active
  scheduled : 0 < schedule.nextRunAt
  reached : schedule.nextRunAt ≤ request.now
  fresh : s.slots.lookup (nextKey record) = none
  parsed : profileOf sv record.definition = .ok profile
  next : followingDue sv record profile = .ok due
  valid : payloadValid (advancedRecord record due) = true
  lease : 0 < request.leaseSeconds

/-- What a committed operation did to the store, with what it had checked. -/
inductive Change (sv : ScheduleServices A) (s : ScheduleStore A) : ScheduleStore A → Prop
  /-- At most the authorization tables were written. -/
  | untouched (a : A) : Change sv s { s with authority := a }
  | created (record : ScheduleRecord) (profile : ScheduleProfile) (operationKey : Option String)
      (now : ℚ) (a : A)
      (parsed : profileOf sv record.definition = .ok profile)
      (kind : record.definition.kind = profile.kind)
      (interval : record.definition.intervalSeconds = profile.intervalSeconds)
      (due : firstDue sv profile now record.definition.timezone = .ok record.nextRunAt)
      (active : record.status = .active) (first : record.nextSequence = 1)
      (valid : payloadValid record = true)
      (fresh : s.schedules.lookup record.definition.scheduleId = none)
      (undefined : s.definitions.lookup record.definition.scheduleId = none) :
      Change sv s { putSchedule record operationKey now s with authority := a }
  | claimed (request : ClaimRequest) (key : String × Occurrence) (schedule : ScheduleRow)
      (record : ScheduleRecord) (row : SlotRow)
      (recovers : Recovers sv s request key schedule record row) :
      Change sv s (setSlot key (fun _ => claimedSlot request row) s)
  | admitted (request : ClaimRequest) (scheduleId : String) (schedule : ScheduleRow)
      (record : ScheduleRecord) (profile : ScheduleProfile) (due : ℚ)
      (admits : Admits sv s request scheduleId schedule record profile due) :
      Change sv s (admitStore request record due s)
  | bound (claim : ScheduleClaim) (now : ℚ) (schedule : ScheduleRow) (record : ScheduleRecord)
      (row : SlotRow) (engine : String) (fresh : FreshIds) (encoded : Snapshot)
      (r : RuntimeStore) (a : A)
      (evidence : Evidence sv s claim.scheduleId schedule record)
      (active : record.status = .active) (stored : s.slots.lookup claim.key = some row)
      (fenced : Fences row claim now) (unbound : row.invocationId = none)
      (binds : BindsNew s claim.key record row engine fresh encoded r) :
      Change sv s (bindStore claim.key record encoded.record.identity r a s)
  /-- A trigger binds a slot that is inserted for it. -/
  | triggered (request : TriggerRequest) (schedule : ScheduleRow) (record : ScheduleRecord)
      (encoded : Snapshot) (r : RuntimeStore) (a : A)
      (evidence : Evidence sv s request.scheduleId schedule record)
      (active : record.status = .active) (kind : record.definition.kind = .on)
      (absent : s.slots.lookup request.key = none)
      (binds : BindsNew (withTriggerSlot request s) request.key record
        (newSlot request.now request.input) request.engine request.fresh encoded r) :
      Change sv s (triggerStore request record encoded.record.identity r a
        (withTriggerSlot request s))
  /-- A trigger binds a slot that is there without an invocation. -/
  | retriggered (request : TriggerRequest) (schedule : ScheduleRow) (record : ScheduleRecord)
      (row : SlotRow) (encoded : Snapshot) (r : RuntimeStore) (a : A)
      (evidence : Evidence sv s request.scheduleId schedule record)
      (active : record.status = .active) (kind : record.definition.kind = .on)
      (stored : s.slots.lookup request.key = some row) (unbound : row.invocationId = none)
      (binds : BindsNew s request.key record row request.engine request.fresh encoded r) :
      Change sv s (triggerStore request record encoded.record.identity r a s)
  | renewed (claim : ScheduleClaim) (now leaseSeconds : ℚ) (row : SlotRow)
      (stored : s.slots.lookup claim.key = some row) (fenced : Fences row claim now)
      (lease : 0 < leaseSeconds) :
      Change sv s
        (setSlot claim.key (fun r => { r with leaseUntil := some (now + leaseSeconds) }) s)
  | waited (claim : ScheduleClaim) (now : ℚ) (row : SlotRow)
      (stored : s.slots.lookup claim.key = some row) (fenced : Fences row claim now) :
      Change sv s (setSlot claim.key (fun r => { r with state := .waiting, leaseUntil := none }) s)
  | finished (claim : ScheduleClaim) (now : ℚ) (schedule : ScheduleRow) (record : ScheduleRecord)
      (row : SlotRow) (handle : ExecutionHandle) (invocationId : String) (status : FinishStatus)
      (moved : ScheduleRecord)
      (evidence : Evidence sv s claim.scheduleId schedule record)
      (stored : s.slots.lookup claim.key = some row) (fenced : Fences row claim now)
      (handle_bound : BoundTo s claim.key row handle)
      (same : handle.record.identity.invocationId = invocationId)
      (agrees : handle.record.status = status.invocation)
      (moves : Moves sv s record invocationId status moved) (valid : payloadValid moved = true) :
      Change sv s (putRecord moved
        (setSlot claim.key (fun r => { r with state := status.slot, leaseUntil := none }) s))
  | cancelled (scheduleId : String) (schedule : ScheduleRow) (record : ScheduleRecord)
      (evidence : Evidence sv s scheduleId schedule record) (active : record.status = .active)
      (valid : payloadValid { record with status := .cancelled, leaseUntil := none } = true) :
      Change sv s (cancelSlots scheduleId
        (putRecord { record with status := .cancelled, leaseUntil := none } s))

/-- Nothing was written. -/
theorem Change.refl (s : ScheduleStore A) : Change sv s s := Change.untouched s.authority

/-! ## Creating -/

theorem withAuthority_eq_ok {record' : ScheduleRecord} (h : withAuthority sv record = .ok record') :
    ∃ digest, record' = { record with
      definition := { record.definition with executionAuthorityDigest := digest } } := by
  unfold withAuthority at h
  split at h
  · obtain rfl := Except.ok.inj h
    exact ⟨record.definition.executionAuthorityDigest, rfl⟩
  · obtain ⟨digest, -, hrest⟩ := except_bind_eq_ok.mp h
    exact ⟨digest, (Except.ok.inj hrest).symm⟩

theorem insertSchedule_change {request : CreateRequest} {profile : ScheduleProfile}
    (hparsed : ScheduleProfiles.parseSchedule sv.calendar (scheduleOf request.plan.source) =
      .ok profile) (h : (insertSchedule sv request profile).run s = .ok (record, s')) :
    Change sv s s' := by
  simp only [insertSchedule, run_eq_ok, not_not, Bool.not_eq_false, Bool.not_eq_true] at h
  obtain ⟨due, hdue, created, hauth, hvalid, hfree, hundef, _, hreserve, rfl, rfl⟩ := h
  obtain ⟨digest, rfl⟩ := withAuthority_eq_ok hauth
  obtain ⟨a, rfl⟩ := reserveSchedule_eq_ok hreserve
  have hfresh : s.schedules.lookup request.scheduleId = none := by
    cases hrow : s.schedules.lookup request.scheduleId with
    | none => rfl
    | some row =>
      have hany := List.any_eq_false.mp hfree (request.scheduleId, row)
        (Table.mem_rows.mpr hrow)
      simp at hany
  exact Change.created _ profile request.operationKey request.now a hparsed rfl rfl hdue rfl rfl
    hvalid hfresh hundef

theorem create_change {request : CreateRequest} (h : (create sv request).run s = .ok (record, s')) :
    Change sv s s' := by
  simp only [create, run_eq_ok] at h
  obtain ⟨profile, hparsed, -, -, h⟩ := h
  unfold createOrRepeat at h
  split at h
  · simp only [repeatedSchedule, run_eq_ok] at h
    obtain ⟨_, _, hreq, -, -, rfl⟩ := h
    obtain ⟨rfl, -⟩ := requireSchedule_eq_ok hreq
    exact Change.refl s
  · exact insertSchedule_change hparsed h

/-! ## Claiming -/

variable {request : ClaimRequest}

theorem resumable_eq_ok {b : Bool} (h : (resumable sv request record key row).run s = .ok (b, s')) :
    s = s' := by
  unfold resumable at h
  split at h
  · exact (pure_eq_ok.mp h).2
  · simp only [run_eq_ok] at h
    obtain ⟨_, _, hbinding, -, rfl⟩ := h
    exact (binding_eq_ok hbinding).1

theorem claimSlot_eq_ok {claimed : ClaimedRecord}
    (h : (claimSlot request record key row).run s = .ok (claimed, s')) :
    claimed = claimedRecord record key.2 row request ∧
      s' = setSlot key (fun _ => claimedSlot request row) s := by
  simp only [claimSlot, run_eq_ok] at h
  obtain ⟨rfl, rfl⟩ := h
  exact ⟨rfl, rfl⟩

/-- What `claim_due` committed: it claimed nothing, a slot that was there, or a slot
that it inserted. -/
inductive Claimed (sv : ScheduleServices A) (s : ScheduleStore A) (request : ClaimRequest) :
    Option ClaimedRecord → ScheduleStore A → Prop
  | nothing : Claimed sv s request none s
  | recovered (key : String × Occurrence) (schedule : ScheduleRow) (record : ScheduleRecord)
      (row : SlotRow) (recovers : Recovers sv s request key schedule record row) :
      Claimed sv s request (some (claimedRecord record key.2 row request))
        (setSlot key (fun _ => claimedSlot request row) s)
  | admitted (scheduleId : String) (schedule : ScheduleRow) (record : ScheduleRecord)
      (profile : ScheduleProfile) (due : ℚ)
      (admits : Admits sv s request scheduleId schedule record profile due) :
      Claimed sv s request
        (some (claimedRecord (advancedRecord record due) (nextKey record).2
          (newSlot record.nextRunAt record.definition.inputData) request))
        (admitStore request record due s)

theorem recoverableSlot_eq_true (h : recoverableSlot request s key row = true) :
    row.state.terminal = false ∧ ∀ t ∈ row.leaseUntil, t ≤ request.now := by
  simp only [recoverableSlot, Bool.and_eq_true, Bool.not_eq_true', Option.all_eq_true,
    decide_eq_true_eq] at h
  obtain ⟨⟨⟨hopen, hexpired⟩, -⟩, -⟩ := h
  exact ⟨hopen, hexpired⟩

theorem mem_recoverable (h : key ∈ recoverable sv request s) :
    ∃ row, s.slots.lookup key = some row ∧ row.state.terminal = false ∧
      ∀ t ∈ row.leaseUntil, t ≤ request.now := by
  unfold recoverable at h
  obtain ⟨⟨k, row⟩, hmem, rfl⟩ := List.mem_map.mp h
  have hsorted := List.mem_of_mem_take hmem
  rw [List.mem_insertionSort] at hsorted
  obtain ⟨hrow, hrec⟩ := Table.mem_selectRows.mp hsorted
  exact ⟨row, Table.mem_rows.mp hrow, recoverableSlot_eq_true hrec⟩

variable {answer : Option ClaimedRecord}

theorem recoverSlot_eq_ok (hlease : 0 < request.leaseSeconds)
    (hkey : key ∈ recoverable sv request s)
    (h : (recoverSlot sv request key).run s = .ok (answer, s')) :
    Claimed sv s request answer s' := by
  obtain ⟨record, s₁, hreq, h⟩ := bind_eq_ok.mp h
  obtain ⟨rfl, schedule, hev⟩ := requireSchedule_eq_ok hreq
  unfold recoverActive at h
  split at h
  · obtain ⟨rfl, rfl⟩ := pure_eq_ok.mp h
    exact Claimed.nothing
  · next hactive =>
      simp only [run_eq_ok] at h
      obtain ⟨row, hrow, proceed, _, hres, h⟩ := h
      obtain rfl := resumable_eq_ok hres
      unfold claimIf at h
      split at h
      · simp only [run_eq_ok] at h
        obtain ⟨_, _, hclaim, rfl, rfl⟩ := h
        obtain ⟨rfl, rfl⟩ := claimSlot_eq_ok hclaim
        obtain ⟨row', hrow', hopen, hexpired⟩ := mem_recoverable hkey
        obtain rfl : row' = row := Option.some.inj (hrow'.symm.trans hrow)
        exact Claimed.recovered key schedule record row'
          ⟨hev, not_not.mp hactive, hrow, hopen, hexpired, hlease⟩
      · obtain ⟨rfl, rfl⟩ := pure_eq_ok.mp h
        exact Claimed.nothing

/-- The loop claims one slot or leaves the store alone: induction on the slots that
are left, every earlier round having changed nothing. -/
theorem recoverFirst_eq_ok (hlease : 0 < request.leaseSeconds) (keys : List (String × Occurrence))
    (hkeys : ∀ key ∈ keys, key ∈ recoverable sv request s)
    (h : (recoverFirst sv request keys).run s = .ok (answer, s')) :
    Claimed sv s request answer s' := by
  induction keys with
  | nil =>
    obtain ⟨rfl, rfl⟩ := pure_eq_ok.mp h
    exact Claimed.nothing
  | cons key _ ih =>
    obtain ⟨first, s₁, hfirst, h⟩ := bind_eq_ok.mp h
    have hround := recoverSlot_eq_ok hlease (hkeys key List.mem_cons_self) hfirst
    cases first with
    | some =>
      obtain ⟨rfl, rfl⟩ := pure_eq_ok.mp h
      exact hround
    | none =>
      cases hround
      exact ih (fun k hk => hkeys k (List.mem_cons_of_mem key hk)) h

/-- The due schedule is active and its instant has come. -/
theorem dueSchedule_eq_some (h : dueSchedule request s = some scheduleId) :
    ∃ row, s.schedules.lookup scheduleId = some row ∧ row.status = .active ∧
      0 < row.nextRunAt ∧ row.nextRunAt ≤ request.now := by
  unfold dueSchedule at h
  obtain ⟨⟨id, row⟩, hhead, rfl⟩ := Option.map_eq_some_iff.mp h
  have hsorted := List.mem_of_mem_head? hhead
  rw [List.mem_insertionSort] at hsorted
  obtain ⟨hrow, hdue⟩ := Table.mem_selectRows.mp hsorted
  simp only [Bool.and_eq_true, decide_eq_true_eq] at hdue
  exact ⟨row, Table.mem_rows.mp hrow, hdue.1.1.1, hdue.1.1.2, hdue.1.2⟩

theorem admitOccurrence_eq_ok (hlease : 0 < request.leaseSeconds)
    (hdue : dueSchedule request s = some scheduleId)
    (h : (admitOccurrence sv request scheduleId).run s = .ok (answer, s')) :
    Claimed sv s request answer s' := by
  simp only [admitOccurrence, run_eq_ok] at h
  obtain ⟨record, _, hreq, row, _, hinsert, profile, hparsed, due, hnext, _, hsave, _, _, hclaim,
    rfl, rfl⟩ := h
  obtain ⟨rfl, schedule, hev⟩ := requireSchedule_eq_ok hreq
  obtain ⟨hfresh, rfl, rfl⟩ := insertSlot_eq_ok hinsert
  obtain ⟨hvalid, rfl⟩ := saveSchedule_eq_ok hsave
  obtain ⟨rfl, rfl⟩ := claimSlot_eq_ok hclaim
  obtain ⟨row, hrow, hactive, hpos, hreached⟩ := dueSchedule_eq_some hdue
  obtain rfl : row = schedule := Option.some.inj (hrow.symm.trans hev.stored)
  exact Claimed.admitted scheduleId row record profile due
    ⟨hev, hactive, hpos, hreached, hfresh, hparsed, hnext, hvalid, hlease⟩

/-- **`claim_due`.**  A committed call claims at most one slot, and only one that is
open and not leased, or the next one of a due schedule. -/
theorem claimDue_eq_ok (h : (claimDue sv request).run s = .ok (answer, s')) :
    Claimed sv s request answer s' := by
  simp only [claimDue, run_eq_ok, not_le] at h
  obtain ⟨hlease, recovered, s₁, hrec, h⟩ := h
  have hloop := recoverFirst_eq_ok hlease _ (fun _ hk => hk) hrec
  cases recovered with
  | some =>
    obtain ⟨rfl, rfl⟩ := pure_eq_ok.mp h
    exact hloop
  | none =>
    cases hloop
    obtain ⟨due, _, hread, h⟩ := bind_eq_ok.mp h
    obtain ⟨hdue, rfl⟩ := read_eq_ok.mp hread
    cases due with
    | none =>
      obtain ⟨rfl, rfl⟩ := pure_eq_ok.mp h
      exact Claimed.nothing
    | some => exact admitOccurrence_eq_ok hlease hdue h

theorem Claimed.change (h : Claimed sv s request answer s') : Change sv s s' := by
  cases h with
  | nothing => exact Change.refl s
  | recovered key schedule record row hrec => exact Change.claimed request key schedule record row hrec
  | admitted id schedule record profile due hadm =>
    exact Change.admitted request id schedule record profile due hadm

/-! ## Binding -/

theorem bindInvocation_eq_ok {claimed : ClaimedRecord} {now : ℚ} {fresh : FreshIds}
    (h : (bindInvocation sv claimed engine now fresh).run s = .ok (handle, s')) :
    ∃ claim row, claimed.claim = some claim ∧ s.slots.lookup claim.key = some row ∧
      Fences row claim now ∧ Change sv s s' := by
  simp only [bindInvocation, run_eq_ok, not_not] at h
  obtain ⟨claim, hclaim, record, _, hreq, hactive, row, _, hfence, h⟩ := h
  obtain ⟨rfl, schedule, hev⟩ := requireSchedule_eq_ok hreq
  obtain ⟨rfl, hrow, hfenced⟩ := fence_eq_ok hfence
  refine ⟨claim, row, hclaim, hrow, hfenced, ?_⟩
  rw [← claimed.same claim hclaim] at hev
  unfold bindSlot at h
  split at h
  · obtain ⟨-, -, a, rfl⟩ := bindAgain_eq_ok h
    exact Change.untouched a
  · next hunbound =>
      obtain ⟨encoded, r, a, -, hbinds, rfl⟩ := bindNew_eq_ok h
      exact Change.bound claim now schedule record row engine fresh encoded r a hev hactive hrow
        hfenced hunbound hbinds

theorem bindPending_eq_ok {request : TriggerRequest} (hunbound : row.invocationId = none)
    (h : (bindPending sv request record row).run s = .ok (handle, s')) :
    ∃ encoded r a, handle = ⟨encoded.record, some encoded, none⟩ ∧
      BindsNew s request.key record row request.engine request.fresh encoded r ∧
      s' = triggerStore request record encoded.record.identity r a s := by
  simp only [bindPending, bindSlot, hunbound, run_eq_ok] at h
  obtain ⟨_, _, hnew, rfl, rfl⟩ := h
  obtain ⟨encoded, r, a, rfl, hbinds, rfl⟩ := bindNew_eq_ok hnew
  exact ⟨encoded, r, a, rfl, hbinds, rfl⟩

theorem bindTrigger_change {request : TriggerRequest}
    (h : (bindTrigger sv request).run s = .ok (handle, s')) :
    Change sv s s' := by
  simp only [bindTrigger, run_eq_ok, not_or, not_not] at h
  obtain ⟨record, _, hreq, ⟨hactive, hkind, -⟩, -, h⟩ := h
  obtain ⟨rfl, schedule, hev⟩ := requireSchedule_eq_ok hreq
  unfold bindTriggerSlot at h
  split at h
  · obtain ⟨row, _, hinsert, h⟩ := bind_eq_ok.mp h
    obtain ⟨habsent, rfl, rfl⟩ := insertSlot_eq_ok hinsert
    obtain ⟨encoded, r, a, -, hbinds, rfl⟩ := bindPending_eq_ok rfl h
    exact Change.triggered request schedule record encoded r a hev hactive hkind habsent hbinds
  · next row hfound =>
      split at h
      · simp only [repeatTrigger, run_eq_ok] at h
        obtain ⟨-, _, _, hbinding, -, -, rfl⟩ := h
        obtain ⟨rfl, -⟩ := binding_eq_ok hbinding
        exact Change.refl s
      · next hunbound =>
          simp only [run_eq_ok] at h
          obtain ⟨-, h⟩ := h
          obtain ⟨encoded, r, a, -, hbinds, rfl⟩ := bindPending_eq_ok hunbound h
          exact Change.retriggered request schedule record row encoded r a hev hactive hkind
            hfound hunbound hbinds

theorem setInvocation_eq_ok {claim : Option ScheduleClaim} {now : ℚ}
    (h : (setInvocation sv scheduleId invocationId claim now).run s = .ok (record, s')) :
    s = s' := by
  simp only [setInvocation, run_eq_ok] at h
  obtain ⟨_, -, _, _, hreq, _, _, hfence, _, _, hbinding, -, -, rfl⟩ := h
  obtain ⟨rfl, -⟩ := requireSchedule_eq_ok hreq
  obtain ⟨rfl, -⟩ := fence_eq_ok hfence
  exact (binding_eq_ok hbinding).1

theorem verifyTriggerBinding_eq_ok {cycleKey : String} {input : Json} {eventScope : Option String}
    (h : (verifyTriggerBinding sv scheduleId cycleKey engine invocationId input eventScope).run s
      = .ok (handle, s')) : s = s' := by
  simp only [verifyTriggerBinding, run_eq_ok] at h
  obtain ⟨_, _, hreq, -, _, -, -, -, -, _, _, hbinding, -, -, rfl⟩ := h
  obtain ⟨rfl, -⟩ := requireSchedule_eq_ok hreq
  exact (binding_eq_ok hbinding).1

/-! ## Working on a claimed occurrence -/

theorem renew_eq_ok {renewed : ScheduleClaim} {now leaseSeconds : ℚ}
    (h : (renew claim now leaseSeconds).run s = .ok (renewed, s')) :
    ∃ row, s.slots.lookup claim.key = some row ∧ Fences row claim now ∧ Change sv s s' := by
  simp only [renew, run_eq_ok, not_le] at h
  obtain ⟨hlease, row, _, hfence, -, rfl⟩ := h
  obtain ⟨rfl, hrow, hfenced⟩ := fence_eq_ok hfence
  exact ⟨row, hrow, hfenced, Change.renewed claim now leaseSeconds row hrow hfenced hlease⟩

theorem markWaiting_eq_ok {now : ℚ} (h : (markWaiting claim now).run s = .ok (u, s')) :
    ∃ row, s.slots.lookup claim.key = some row ∧ Fences row claim now ∧ Change sv s s' := by
  simp only [markWaiting, run_eq_ok] at h
  obtain ⟨row, _, hfence, rfl⟩ := h
  obtain ⟨rfl, hrow, hfenced⟩ := fence_eq_ok hfence
  exact ⟨row, hrow, hfenced, Change.waited claim now row hrow hfenced⟩

/-- A finished occurrence moves its schedule in one of three ways. -/
theorem finishRecord_eq_ok {moved : ScheduleRecord} {status : FinishStatus}
    (h : (finishRecord sv (finishedBase record handle.record.identity.invocationId status)
      handle status).run s = .ok (moved, s')) :
    s = s' ∧ Moves sv s record handle.record.identity.invocationId status moved := by
  unfold finishRecord at h
  split at h
  · next hafter =>
      split at h
      · next hcompleted =>
          simp only [dueAfterCompletion, run_eq_ok] at h
          obtain ⟨profile, hparsed, _, _, htime, due, hdue, rfl, rfl⟩ := h
          obtain ⟨r, hr, rfl⟩ := runtimeTransaction_eq_ok htime
          obtain ⟨rfl, -, value, hvalue, rfl⟩ :=
            Invocations.terminalCompletedAtInTransaction_eq_ok hr
          exact ⟨rfl, Moves.onward profile value due hafter.1 hafter.2 hcompleted hparsed hvalue
            hdue⟩
      · next hfailed =>
          obtain ⟨rfl, rfl⟩ := pure_eq_ok.mp h
          exact ⟨rfl, Moves.ended hafter.1 hafter.2 hfailed⟩
  · next hother =>
      obtain ⟨rfl, rfl⟩ := pure_eq_ok.mp h
      exact ⟨rfl, Moves.stayed hother⟩

theorem finish_eq_ok {status : InvocationStatus} {now : ℚ} {claim : Option ScheduleClaim}
    (h : (finish sv scheduleId invocationId status now claim).run s = .ok (record, s')) :
    ∃ c row, claim = some c ∧ c.scheduleId = scheduleId ∧ s.slots.lookup c.key = some row ∧
      Fences row c now ∧ Change sv s s' := by
  simp only [finish, run_eq_ok, not_or, not_not] at h
  obtain ⟨final, -, c, hclaim, saved, _, hreq, row, _, hfence, handle, _, hbinding, ⟨rfl, hagrees⟩,
    moved, _, hmoved, _, hsave, rfl, rfl⟩ := h
  obtain ⟨hsome, hid⟩ := Option.filter_eq_some_iff.mp hclaim
  obtain rfl : c.scheduleId = scheduleId := by simpa using hid
  obtain ⟨rfl, schedule, hev⟩ := requireSchedule_eq_ok hreq
  obtain ⟨rfl, hrow, hfenced⟩ := fence_eq_ok hfence
  obtain ⟨rfl, hbound⟩ := binding_eq_ok hbinding
  obtain ⟨rfl, hmoves⟩ := finishRecord_eq_ok hmoved
  obtain ⟨hvalid, rfl⟩ := saveSchedule_eq_ok hsave
  refine ⟨c, row, hsome, rfl, hrow, hfenced, ?_⟩
  -- the slot is written before the schedule moves, and the move does not read it
  have hmoves' : Moves sv s saved handle.record.identity.invocationId final moved := by
    cases hmoves with
    | onward profile value due hactive hkind hdone hparsed hvalue hdue =>
      exact Moves.onward profile value due hactive hkind hdone hparsed hvalue hdue
    | ended hactive hkind hfailed => exact Moves.ended hactive hkind hfailed
    | stayed hother => exact Moves.stayed hother
  exact Change.finished c now schedule saved row handle _ final moved hev hrow hfenced hbound rfl
    hagrees hmoves' hvalid

theorem cancel_change (h : (cancel sv scheduleId).run s = .ok (record, s')) : Change sv s s' := by
  obtain ⟨saved, _, hreq, h⟩ := bind_eq_ok.mp h
  obtain ⟨rfl, schedule, hev⟩ := requireSchedule_eq_ok hreq
  unfold cancelRecord at h
  split at h
  · next hactive =>
      simp only [run_eq_ok] at h
      obtain ⟨_, hsave, -, rfl⟩ := h
      obtain ⟨hvalid, rfl⟩ := saveSchedule_eq_ok hsave
      exact Change.cancelled scheduleId schedule saved hev hactive hvalid
  · obtain ⟨-, rfl⟩ := pure_eq_ok.mp h
    exact Change.refl s

/-! ## Runs of the system -/

/-- A call to the schedule store. -/
inductive Operation where
  | create (request : CreateRequest)
  | get (scheduleId : String)
  | claimDue (request : ClaimRequest)
  | bindInvocation (claimed : ClaimedRecord) (engine : String) (now : ℚ) (fresh : FreshIds)
  | bindTrigger (request : TriggerRequest)
  | setInvocation (scheduleId invocationId : String) (claim : Option ScheduleClaim) (now : ℚ)
  | verifyTriggerBinding (scheduleId cycleKey engine invocationId : String) (input : Json)
      (eventScope : Option String)
  | renew (claim : ScheduleClaim) (now leaseSeconds : ℚ)
  | markWaiting (claim : ScheduleClaim) (now : ℚ)
  | finish (scheduleId invocationId : String) (status : InvocationStatus) (now : ℚ)
      (claim : Option ScheduleClaim)
  | cancel (scheduleId : String)

/-- The store after a call, committed or rolled back. -/
def Operation.apply (sv : ScheduleServices A) (s : ScheduleStore A) : Operation → ScheduleStore A
  | .create request => (Schedules.create sv request).after s
  | .get scheduleId => (getSchedule sv scheduleId).after s
  | .claimDue request => (Schedules.claimDue sv request).after s
  | .bindInvocation claimed engine now fresh =>
    (Schedules.bindInvocation sv claimed engine now fresh).after s
  | .bindTrigger request => (Schedules.bindTrigger sv request).after s
  | .setInvocation scheduleId invocationId claim now =>
    (Schedules.setInvocation sv scheduleId invocationId claim now).after s
  | .verifyTriggerBinding scheduleId cycleKey engine invocationId input eventScope =>
    (Schedules.verifyTriggerBinding sv scheduleId cycleKey engine invocationId input
      eventScope).after s
  | .renew claim now leaseSeconds => (Schedules.renew claim now leaseSeconds).after s
  | .markWaiting claim now => (Schedules.markWaiting claim now).after s
  | .finish scheduleId invocationId status now claim =>
    (Schedules.finish sv scheduleId invocationId status now claim).after s
  | .cancel scheduleId => (Schedules.cancel sv scheduleId).after s

/-- **Every call makes one of the listed changes.** -/
theorem operation_change (s : ScheduleStore A) (op : Operation) :
    Change sv s (op.apply sv s) := by
  have hrefl : Change sv s s := Change.refl s
  cases op with
  | create => exact after_induction hrefl fun _ _ h => create_change h
  | get =>
    refine after_induction hrefl fun _ _ h => ?_
    simp only [getSchedule, run_eq_ok] at h
    obtain ⟨-, rfl⟩ := h
    exact hrefl
  | claimDue => exact after_induction hrefl fun _ _ h => (claimDue_eq_ok h).change
  | bindInvocation =>
    refine after_induction hrefl fun _ _ h => ?_
    obtain ⟨_, _, -, -, -, hchange⟩ := bindInvocation_eq_ok h
    exact hchange
  | bindTrigger => exact after_induction hrefl fun _ _ h => bindTrigger_change h
  | setInvocation =>
    refine after_induction hrefl fun _ _ h => ?_
    rw [← setInvocation_eq_ok h]
    exact hrefl
  | verifyTriggerBinding =>
    refine after_induction hrefl fun _ _ h => ?_
    rw [← verifyTriggerBinding_eq_ok h]
    exact hrefl
  | renew =>
    refine after_induction hrefl fun _ _ h => ?_
    obtain ⟨_, -, -, hchange⟩ := renew_eq_ok h
    exact hchange
  | markWaiting =>
    refine after_induction hrefl fun _ _ h => ?_
    obtain ⟨_, -, -, hchange⟩ := markWaiting_eq_ok h
    exact hchange
  | finish =>
    refine after_induction hrefl fun _ _ h => ?_
    obtain ⟨_, _, -, -, -, -, hchange⟩ := finish_eq_ok h
    exact hchange
  | cancel => exact after_induction hrefl fun _ _ h => cancel_change h

/-- One step of the system: a call to the schedule store by some scheduler, a commit of
the invocation store, or a write to the authorization tables. -/
inductive Step (sv : ScheduleServices A) (s : ScheduleStore A) : ScheduleStore A → Prop
  | operation (op : Operation) : Step sv s (op.apply sv s)
  | invocation (r : RuntimeStore) (h : Invocations.Commits sv.sha256 s.runtime r) :
      Step sv s { s with runtime := r }
  | authorization (a : A) : Step sv s { s with authority := a }

/-- A run of the system. -/
def Steps (sv : ScheduleServices A) : ScheduleStore A → ScheduleStore A → Prop :=
  Relation.ReflTransGen (Step sv)

/-- A database without schedules. -/
structure Initial (s : ScheduleStore A) : Prop where
  schedules : s.schedules = ∅
  definitions : s.definitions = ∅
  slots : s.slots = ∅
  bindings : s.bindings = ∅

theorem Step.change_or_commit (h : Step sv s s') :
    Change sv s s' ∨
      ∃ r, Invocations.Commits sv.sha256 s.runtime r ∧ s' = { s with runtime := r } := by
  cases h with
  | operation op => exact Or.inl (operation_change s op)
  | invocation r hr => exact Or.inr ⟨r, hr, rfl⟩
  | authorization a => exact Or.inl (Change.untouched a)

end Schedules
