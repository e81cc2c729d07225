/-
# Invocation records form a linear history

Any number of processes hold handles on invocation records and call `create`,
`get`, `refresh`, `update`, the cancellations and `terminal_completed_at` on them,
in any interleaving, each call with the handle in whatever state its process left
it.  `Linear` is the invariant of the tables: the committed snapshots of one
invocation form a chain along the transition table, its row is the newest of them,
no revision is used twice, and there is a terminal time exactly for a terminal
record.

`Guarantee` says what one transaction of one call may do: nothing, insert a first
snapshot, or write a snapshot over the one its handle was loaded from.
-/
import OpenWorkflowAgent.Invocations

open Transaction Invocations Procedure

namespace InvocationHistory

/-! ## The invariant of the tables -/

def revisions (s : RuntimeStore) : List String := s.history.map Snapshot.revision

/-- The committed snapshots of one invocation, newest first. -/
def snapshotsOf (s : RuntimeStore) (invocationId : String) : List Snapshot :=
  s.history.filter fun x => x.invocationId = invocationId

/-- A snapshot that may be written over another one. -/
structure Follows (next previous : Snapshot) : Prop where
  active : previous.record.status.terminal = false
  transition : next.record.status ∈ previous.record.status.validTransitions
  identity : next.record.identity = previous.record.identity

/-- The tables hold a linear history of every invocation. -/
structure Linear (sha256 : Snapshot → String) (s : RuntimeStore) : Prop where
  row_newest : ∀ id, s.invocations.lookup id =
    (snapshotsOf s id).head?.map fun x => ⟨x, x.record.status⟩
  chain : ∀ id, (snapshotsOf s id).IsChain Follows
  revisions_nodup : (revisions s).Nodup
  readable : ∀ x ∈ s.history, validRecord x.record = true ∧ isUuidHex x.revision = true
  time_iff : ∀ id, (s.terminalTimes.lookup id).isSome ↔
    ∃ row, s.invocations.lookup id = some row ∧ row.status.terminal = true
  time_matches : ∀ id row t, s.invocations.lookup id = some row →
    s.terminalTimes.lookup id = some t →
    t = terminalTimeOf sha256 row.payload t.completedAt ∧ 0 < t.completedAt

variable {id : String} {expected : Snapshot} {instant : ℚ} {s' : RuntimeStore}

section Invariant

variable {sha256 : Snapshot → String} {s : RuntimeStore}

/-- The tables before anything was created. -/
def emptyStore (owners : OwnershipStore) : RuntimeStore := ⟨owners, ∅, ∅, ∅, []⟩

theorem linear_emptyStore (owners : OwnershipStore) : Linear sha256 (emptyStore owners) where
  row_newest _ := rfl
  chain _ := List.isChain_nil
  revisions_nodup := List.nodup_nil
  readable := by simp [emptyStore]
  time_iff _ := by simp [emptyStore]
  time_matches := by simp [emptyStore]

variable {encoded : Snapshot}

theorem snapshotsOf_cons (h : s'.history = encoded :: s.history) (id : String) : snapshotsOf s' id =
      if encoded.invocationId = id then encoded :: snapshotsOf s id else snapshotsOf s id := by
  unfold snapshotsOf
  rw [h, List.filter_cons]
  simp only [decide_eq_true_eq]

section

variable (h : Linear sha256 s)

include h

theorem Linear.snapshotsOf_eq {row : InvocationRow} (hrow : s.invocations.lookup id = some row) :
    row.status = row.payload.record.status ∧ row.payload.invocationId = id ∧
      ∃ older, snapshotsOf s id = row.payload :: older := by
  have hnew := h.row_newest id
  rw [hrow] at hnew
  cases hs : snapshotsOf s id with
  | nil =>
    rw [hs] at hnew
    cases hnew
  | cons x older =>
    rw [hs] at hnew
    simp only [List.head?_cons, Option.map_some, Option.some.injEq] at hnew
    subst hnew
    have hx : x ∈ snapshotsOf s id := by
      rw [hs]
      exact List.mem_cons_self
    refine ⟨rfl, ?_, older, rfl⟩
    simpa [snapshotsOf] using (List.mem_filter.mp hx).2

theorem Linear.payload_mem {row : InvocationRow} (hrow : s.invocations.lookup id = some row) :
    row.payload ∈ s.history := by
  obtain ⟨-, -, older, hs⟩ := h.snapshotsOf_eq hrow
  have hx : row.payload ∈ snapshotsOf s id := by
    rw [hs]
    exact List.mem_cons_self
  exact (List.mem_filter.mp hx).1

theorem Linear.time_none
    (hrow : ∀ row, s.invocations.lookup id = some row → row.status.terminal = false) :
    s.terminalTimes.lookup id = none := by
  cases ht : s.terminalTimes.lookup id with
  | none => rfl
  | some =>
    obtain ⟨row, hr, hterm⟩ := (h.time_iff id).mp (by rw [ht]; rfl)
    rw [hrow row hr] at hterm
    cases hterm

theorem Linear.of_untouched (hu : Untouched s s') : Linear sha256 s' := by
  have hsnap : snapshotsOf s' = snapshotsOf s := by
    unfold snapshotsOf
    rw [hu.history]
  refine ⟨?_, ?_, ?_, ?_, ?_, ?_⟩
  · rw [hu.invocations, hsnap]
    exact h.row_newest
  · rw [hsnap]
    exact h.chain
  · unfold revisions
    rw [hu.history]
    exact h.revisions_nodup
  · rw [hu.history]
    exact h.readable
  · rw [hu.invocations, hu.terminalTimes]
    exact h.time_iff
  · rw [hu.invocations, hu.terminalTimes]
    exact h.time_matches

/-- The table of records stays the newest of every history when a snapshot is put. -/
theorem Linear.row_newest_put (hinv : s'.invocations =
      s.invocations.put encoded.invocationId ⟨encoded, encoded.record.status⟩)
    (hhist : s'.history = encoded :: s.history) (id : String) :
    s'.invocations.lookup id =
      (snapshotsOf s' id).head?.map fun x => ⟨x, x.record.status⟩ := by
  rw [hinv, snapshotsOf_cons hhist, Table.lookup_put]
  by_cases hid : encoded.invocationId = id
  · rw [if_pos hid.symm, if_pos hid]
    rfl
  · rw [if_neg (fun hc => hid hc.symm), if_neg hid]
    exact h.row_newest id

theorem Linear.revisions_nodup_cons (hhist : s'.history = encoded :: s.history)
    (hfresh : encoded.revision ∉ revisions s) : (revisions s').Nodup := by
  unfold revisions
  rw [hhist]
  exact List.nodup_cons.mpr ⟨hfresh, h.revisions_nodup⟩

theorem Linear.readable_cons (hhist : s'.history = encoded :: s.history)
    (hvalid : validRecord encoded.record = true) (hhex : isUuidHex encoded.revision = true)
    (x : Snapshot) (hx : x ∈ s'.history) :
    validRecord x.record = true ∧ isUuidHex x.revision = true := by
  rw [hhist] at hx
  rcases List.mem_cons.mp hx with rfl | hx
  · exact ⟨hvalid, hhex⟩
  · exact h.readable x hx

/-- A first snapshot starts a linear history. -/
theorem Linear.of_creates (hc : Creates encoded s s') (hfresh : encoded.revision ∉ revisions s)
    (hhex : isUuidHex encoded.revision = true) : Linear sha256 s' := by
  have hnone : snapshotsOf s encoded.invocationId = [] := by
    have hnew := h.row_newest encoded.invocationId
    rw [hc.absent] at hnew
    cases hs : snapshotsOf s encoded.invocationId with
    | nil => rfl
    | cons =>
      rw [hs] at hnew
      cases hnew
  have htime : s.terminalTimes.lookup encoded.invocationId = none :=
    h.time_none fun row hrow => by
      rw [hc.absent] at hrow
      cases hrow
  refine ⟨h.row_newest_put hc.invocations hc.history, ?_,
    h.revisions_nodup_cons hc.history hfresh, h.readable_cons hc.history hc.valid hhex, ?_, ?_⟩
  · intro id
    rw [snapshotsOf_cons hc.history]
    by_cases hid : encoded.invocationId = id
    · subst hid
      rw [if_pos rfl, hnone]
      exact List.isChain_singleton _
    · rw [if_neg hid]
      exact h.chain id
  · intro id
    rw [hc.terminalTimes, hc.invocations, Table.lookup_put]
    by_cases hid : id = encoded.invocationId
    · subst hid
      simp [htime, hc.running, InvocationStatus.terminal]
    · rw [if_neg hid]
      exact h.time_iff id
  · intro id row t hrow ht
    rw [hc.invocations, Table.lookup_put] at hrow
    rw [hc.terminalTimes] at ht
    by_cases hid : id = encoded.invocationId
    · subst hid
      rw [htime] at ht
      cases ht
    · rw [if_neg hid] at hrow
      exact h.time_matches id row t hrow ht

theorem Linear.time_overwrites (ho : Overwrites sha256 expected encoded instant s s')
    (id : String) :
    s'.terminalTimes.lookup id =
      if id = encoded.invocationId then
        if encoded.record.status.terminal then some (terminalTimeOf sha256 encoded instant)
        else none
      else s.terminalTimes.lookup id := by
  have htime : s.terminalTimes.lookup encoded.invocationId = none :=
    h.time_none fun row hrow => by
      rw [ho.stored, Option.some.injEq] at hrow
      rw [← hrow]
      exact ho.active
  rw [ho.terminalTimes]
  by_cases hid : id = encoded.invocationId
  · subst hid
    rw [if_pos rfl]
    split
    · exact Table.lookup_insertNew_self_of_none htime
    · exact htime
  · rw [if_neg hid]
    split
    · exact Table.lookup_insertNew_ne hid
    · rfl

theorem Linear.of_overwrites (ho : Overwrites sha256 expected encoded instant s s')
    (hfresh : encoded.revision ∉ revisions s) (hhex : isUuidHex encoded.revision = true) :
    Linear sha256 s' := by
  refine ⟨h.row_newest_put ho.invocations ho.history, ?_,
    h.revisions_nodup_cons ho.history hfresh, h.readable_cons ho.history ho.valid hhex, ?_, ?_⟩
  · intro id
    rw [snapshotsOf_cons ho.history]
    by_cases hid : encoded.invocationId = id
    · subst hid
      obtain ⟨-, -, older, hs⟩ := h.snapshotsOf_eq ho.stored
      have hchain := h.chain encoded.invocationId
      rw [if_pos rfl]
      rw [hs] at hchain ⊢
      exact List.isChain_cons_cons.mpr ⟨⟨ho.active, ho.transition, ho.identity⟩, hchain⟩
    · rw [if_neg hid]
      exact h.chain id
  · intro id
    rw [h.time_overwrites ho, ho.invocations, Table.lookup_put]
    by_cases hid : id = encoded.invocationId
    · rw [if_pos hid, if_pos hid]
      by_cases hterm : encoded.record.status.terminal = true
      · simp [hterm]
      · simp [hterm]
    · rw [if_neg hid, if_neg hid]
      exact h.time_iff id
  · intro id row t hrow ht
    rw [ho.invocations, Table.lookup_put] at hrow
    rw [h.time_overwrites ho] at ht
    by_cases hid : id = encoded.invocationId
    · rw [if_pos hid, Option.some.injEq] at hrow
      rw [if_pos hid] at ht
      subst hrow
      by_cases hterm : encoded.record.status.terminal = true
      · rw [if_pos hterm, Option.some.injEq] at ht
        subst ht
        exact ⟨rfl, ho.instant_pos hterm⟩
      · rw [if_neg hterm] at ht
        cases ht
    · rw [if_neg hid] at hrow ht
      exact h.time_matches id row t hrow ht

end

end Invariant

/-! ## Calls -/

/-- The operations of the store on one handle. -/
inductive Operation where
  | create (identity : InvocationIdentity)
  | load (invocationId : String)
  | refresh (terminalOnly : Bool)
  | update (changes : Changes) (instant : ℚ)
  | cancelAuthoritatively (error : Json) (instant : ℚ)
  | cancelUnderParentControl (parent : ExecutionHandle) (lease : ExecutionLease) (error : Json)
      (instant : ℚ)
  | terminalCompletedAt

/-- One call: the operation, the handle as its process left it, and the revision
that `uuid4` draws for it.  `found` is auxiliary: the row of the handle's invocation
when the call was made. -/
structure Call where
  operation : Operation
  handle : ExecutionHandle
  revision : String
  found : Option InvocationRow

def Call.invocationId (c : Call) : String := c.handle.record.identity.invocationId

variable (sha256 : Snapshot → String)

/-- The procedure of an operation; only `terminal_completed_at` answers a value. -/
def procedure (operation : Operation) (revision : String) :
    Procedure OwaError ExecutionHandle RuntimeStore (Option ℚ) :=
  match operation with
  | .create identity => do
      create identity revision
      return none
  | .load invocationId => do
      load invocationId
      return none
  | .refresh terminalOnly => do
      refresh terminalOnly
      return none
  | .update changes instant => do
      update sha256 changes revision instant
      return none
  | .cancelAuthoritatively error instant => do
      cancelAuthoritatively sha256 error revision instant
      return none
  | .cancelUnderParentControl parent lease error instant => do
      cancelUnderParentControl sha256 parent lease error revision instant
      return none
  | .terminalCompletedAt => do
      let instant ← terminalCompletedAt sha256
      return some instant

/-- The protocol of the invocation store: revisions are fresh, and everything else
in the runtime leaves the records alone. -/
def protocol : Protocol Call RuntimeStore (Except OwaError (Option ℚ) × ExecutionHandle) where
  body c := (procedure sha256 c.operation c.revision).start c.handle
  pre c s := isUuidHex c.revision = true ∧ c.revision ∉ revisions s ∧
    c.found = s.invocations.lookup c.invocationId
  apart c c' := c.revision ≠ c'.revision
  env := Untouched

/-! ## What a call relies on and what it does -/

/-- What a call sees of the others. -/
structure Relies (c : Call) (s s' : RuntimeStore) : Prop where
  history : s.history <:+ s'.history
  fresh : c.revision ∉ revisions s → c.revision ∉ revisions s'
  terminal : ∀ id row, s.invocations.lookup id = some row → row.status.terminal = true →
    s'.invocations.lookup id = some row ∧ s'.terminalTimes.lookup id = s.terminalTimes.lookup id

/-- What one transaction of a call does to the records: a snapshot is only ever
written over the one that the handle was loaded from. -/
inductive Guarantee (c : Call) (s s' : RuntimeStore) : Prop
  | untouched (h : Untouched s s')
  | created (encoded : Snapshot) (hrev : encoded.revision = c.revision)
      (hfresh : encoded.revision ∉ revisions s) (hhex : isUuidHex encoded.revision = true)
      (h : Creates encoded s s')
  | overwritten (expected encoded : Snapshot) (instant : ℚ)
      (hloaded : c.handle.persistedPayload = some expected)
      (hrev : encoded.revision = c.revision) (hfresh : encoded.revision ∉ revisions s)
      (hhex : isUuidHex encoded.revision = true)
      (h : Overwrites sha256 expected encoded instant s s')

section Discipline

variable {sha256} {c : Call} {s : RuntimeStore}

theorem untouched_refl (s : RuntimeStore) : Untouched s s := ⟨rfl, rfl, rfl⟩

theorem Guarantee.linear (h : Linear sha256 s) (hg : Guarantee sha256 c s s') :
    Linear sha256 s' := by
  cases hg with
  | untouched hu => exact h.of_untouched hu
  | created _ _ hfresh hhex hc => exact h.of_creates hc hfresh hhex
  | overwritten _ _ _ _ _ hfresh hhex ho =>
    exact h.of_overwrites ho hfresh hhex

theorem Relies.of_untouched (hu : Untouched s s') : Relies c s s' := by
  refine ⟨by rw [hu.history], ?_, ?_⟩
  · unfold revisions
    rw [hu.history]
    exact id
  · intro id row hrow _
    rw [hu.invocations, hu.terminalTimes]
    exact ⟨hrow, rfl⟩

/-- A new snapshot with another call's revision leaves a revision fresh. -/
theorem fresh_cons {encoded : Snapshot} (hhist : s'.history = encoded :: s.history)
    (hne : encoded.revision ≠ c.revision) (h : c.revision ∉ revisions s) :
    c.revision ∉ revisions s' := by
  unfold revisions at h ⊢
  rw [hhist, List.map_cons, List.mem_cons, not_or]
  exact ⟨fun heq => hne heq.symm, h⟩

theorem suffix_cons {encoded : Snapshot} (hhist : s'.history = encoded :: s.history) :
    s.history <:+ s'.history := by
  rw [hhist]
  exact List.suffix_cons _ _

/-- What one call does, every call with another revision can rely on. -/
theorem Guarantee.relies {c' : Call} (h : Linear sha256 s) (hne : c.revision ≠ c'.revision)
    (hg : Guarantee sha256 c s s') : Relies c' s s' := by
  cases hg with
  | untouched hu => exact Relies.of_untouched hu
  | created encoded hrev _ _ hc =>
    refine ⟨suffix_cons hc.history, fresh_cons hc.history (by rw [hrev]; exact hne), ?_⟩
    intro id row hrow _
    have hid : id ≠ encoded.invocationId := by
      rintro rfl
      rw [hc.absent] at hrow
      cases hrow
    rw [hc.invocations, hc.terminalTimes, Table.lookup_put_ne hid]
    exact ⟨hrow, rfl⟩
  | overwritten _ encoded _ _ hrev _ _ ho =>
    refine ⟨suffix_cons ho.history, fresh_cons ho.history (by rw [hrev]; exact hne), ?_⟩
    intro id row hrow hterm
    have hid : id ≠ encoded.invocationId := by
      rintro rfl
      rw [ho.stored, Option.some.injEq] at hrow
      rw [← hrow, ho.active] at hterm
      cases hterm
    rw [ho.invocations, Table.lookup_put_ne hid, h.time_overwrites ho, if_neg hid]
    exact ⟨hrow, rfl⟩

theorem Relies.trans {s₁ s₂ s₃ : RuntimeStore} (h₁ : Relies c s₁ s₂) (h₂ : Relies c s₂ s₃) :
    Relies c s₁ s₃ := by
  refine ⟨h₁.history.trans h₂.history, fun h => h₂.fresh (h₁.fresh h), ?_⟩
  intro id row hrow hterm
  obtain ⟨hrow₂, htime₂⟩ := h₁.terminal id row hrow hterm
  obtain ⟨hrow₃, htime₃⟩ := h₂.terminal id row hrow₂ hterm
  exact ⟨hrow₃, htime₃.trans htime₂⟩

end Discipline

/-! ## Outcomes -/

/-- A handle that agrees with a committed snapshot, or that the call left alone. -/
def Saved (c : Call) (handle : ExecutionHandle) (s : RuntimeStore) : Prop :=
  handle = c.handle ∨
    ∃ x ∈ s.history, handle.persistedPayload = some x ∧ handle.record = x.record

/-- A call that raised left its handle unchanged and committed nothing; one that
answered left the handle in step with the records. -/
def Settled {α : Type} (c : Call) (r : Except OwaError α) (handle : ExecutionHandle)
    (s : RuntimeStore) : Prop :=
  match r with
  | .error _ => handle = c.handle ∧ c.revision ∉ revisions s
  | .ok _ => Saved c handle s

/-- The row a call found when it was made is terminal and carries its identity. -/
def FoundTerminal (c : Call) : Prop :=
  ∃ row, c.found = some row ∧ row.status.terminal = true ∧
    row.payload.record.identity = c.handle.record.identity

structure Outcome (c : Call) (r : Except OwaError (Option ℚ) × ExecutionHandle)
    (s : RuntimeStore) : Prop where
  settled : Settled c r.1 r.2 s
  terminalTime : c.operation = .terminalCompletedAt → FoundTerminal c →
    ∃ row t, s.invocations.lookup c.invocationId = some row ∧ row.status.terminal = true ∧
      s.terminalTimes.lookup c.invocationId = some t ∧ r.1 = .ok (some t.completedAt)

/-! ## Each operation alone -/

section Operations

variable {sha256} {c : Call} {s : RuntimeStore}

variable {handle : ExecutionHandle}

theorem Saved.mono (h : Saved c handle s) (hh : s.history <:+ s'.history) : Saved c handle s' := by
  rcases h with h | ⟨x, hx, hp, hr⟩
  · exact Or.inl h
  · exact Or.inr ⟨x, hh.subset hx, hp, hr⟩

theorem Settled.stable {α : Type} {r : Except OwaError α} (h : Settled c r handle s)
    (hr : Relies c s s') : Settled c r handle s' := by
  cases r with
  | error => exact ⟨h.1, hr.fresh h.2⟩
  | ok => exact Saved.mono h hr.history

theorem Outcome.stable {r : Except OwaError (Option ℚ) × ExecutionHandle} (h : Outcome c r s)
    (hr : Relies c s s') : Outcome c r s' := by
  refine ⟨h.settled.stable hr, fun hop hfound => ?_⟩
  obtain ⟨row, t, hrow, hterm, ht, hans⟩ := h.terminalTime hop hfound
  obtain ⟨hrow', htime⟩ := hr.terminal _ row hrow hterm
  exact ⟨row, t, hrow', hterm, by rw [htime, ht], hans⟩

/-- In linear tables `get` never raises: it answers the handle of the row. -/
theorem getInvocation_of_linear (h : Linear sha256 s) (id : String) :
    (getInvocation id).run s = .ok ((s.invocations.lookup id).map
      fun row => ⟨row.payload.record, some row.payload, none⟩, s) := by
  cases hrow : s.invocations.lookup id with
  | none =>
    simp only [getInvocation, run_eq_ok, hrow, Option.map_none, and_self]
  | some =>
    obtain ⟨hst, hid, -⟩ := h.snapshotsOf_eq hrow
    obtain ⟨hvalid, hhex⟩ := h.readable _ (h.payload_mem hrow)
    exact getInvocation_run hrow hvalid hhex hid hst.symm

/-- Reading a record: the rest goes on with the row as it is at that moment. -/
theorem holds_getInvocation_bind {α : Type}
    {post : Except OwaError α → ExecutionHandle → RuntimeStore → Prop}
    {f : Option ExecutionHandle → Procedure OwaError ExecutionHandle RuntimeStore α}
    (h : ∀ s₁, Relies c s s₁ → Linear sha256 s₁ →
      Procedure.Holds (Linear sha256) (Relies c) (Guarantee sha256 c) post
        (f ((s₁.invocations.lookup id).map
          fun row => ⟨row.payload.record, some row.payload, none⟩)) handle s₁) :
    Procedure.Holds (Linear sha256) (Relies c) (Guarantee sha256 c) post
      (Procedure.transaction (getInvocation id) >>= f) handle s := by
  rw [holds_bind, holds_transaction]
  intro s₁ hr hlin
  have hrun := getInvocation_of_linear hlin id
  rw [after_of_ok hrun, answer_eq_ok.mpr ⟨s₁, hrun⟩]
  exact ⟨.untouched (untouched_refl s₁), h s₁ hr hlin⟩

theorem refresh_holds (hfresh : c.revision ∉ revisions s) (terminalOnly : Bool) :
    Procedure.Holds (Linear sha256) (Relies c) (Guarantee sha256 c) (Settled c)
      (refresh terminalOnly) c.handle s := by
  unfold refresh
  rw [holds_get_bind]
  refine holds_getInvocation_bind fun s₁ hr hlin => ?_
  have hfresh₁ := hr.fresh hfresh
  simp only [holds_orRaise_bind, holds_orRaiseError_bind,
    holds_raiseIf_bind, holds_set]
  refine ⟨fun _ => ⟨rfl, hfresh₁⟩, fun current hcurrent => ⟨fun _ _ => ⟨rfl, hfresh₁⟩,
    fun _ _ => ⟨fun _ => ⟨rfl, hfresh₁⟩, fun _ => ?_⟩⟩⟩
  obtain ⟨row, hrow, rfl⟩ := Option.map_eq_some_iff.mp hcurrent
  exact Or.inr ⟨row.payload, hlin.payload_mem hrow, rfl, rfl⟩

theorem load_holds (id : String) :
    Procedure.Holds (Linear sha256) (Relies c) (Guarantee sha256 c) (Settled c)
      (load id) c.handle s := by
  unfold load
  refine holds_getInvocation_bind fun s₁ hr hlin => ?_
  cases hrow : s₁.invocations.lookup id with
  | none => exact Or.inl rfl
  | some row => exact Or.inr ⟨row.payload, hlin.payload_mem hrow, rfl, rfl⟩

section

variable (hhex : isUuidHex c.revision = true)

include hhex

theorem create_holds (hfresh : c.revision ∉ revisions s) (identity : InvocationIdentity) :
    Procedure.Holds (Linear sha256) (Relies c) (Guarantee sha256 c) (Settled c)
      (create identity c.revision) c.handle s := by
  unfold create
  rw [holds_bind, holds_transaction]
  intro s₁ hr hlin
  have hfresh₁ := hr.fresh hfresh
  cases hrun : (createInTransaction identity c.revision none none).answer s₁ with
  | error =>
    rw [after_of_error hrun]
    exact ⟨.untouched (untouched_refl s₁), rfl, hfresh₁⟩
  | ok =>
    obtain ⟨s₂, hok⟩ := answer_eq_ok.mp hrun
    obtain ⟨encoded, hrev, -, rfl, hc, -, -, -⟩ := createInTransaction_eq_ok hok
    rw [after_of_ok hok]
    refine ⟨.created encoded hrev (by rw [hrev]; exact hfresh₁) (by rw [hrev]; exact hhex) hc, ?_⟩
    refine Or.inr ⟨encoded, ?_, rfl, rfl⟩
    rw [hc.history]
    exact List.mem_cons_self

theorem compareAndSet_holds (hfresh : c.revision ∉ revisions s) {candidate : InvocationRecord}
    (hloaded : c.handle.persistedPayload = some expected)
    (hactive : expected.record.status.terminal = false)
    (htrans : candidate.status ∈ expected.record.status.validTransitions)
    (hid : candidate.identity = expected.record.identity) :
    Procedure.Holds (Linear sha256) (Relies c) (Guarantee sha256 c)
      (fun r handle s' => handle = c.handle ∧ match r with
        | .error _ => c.revision ∉ revisions s'
        | .ok encoded => encoded ∈ s'.history ∧ encoded.record = candidate)
      (Procedure.transaction
        (compareAndSet sha256 c.handle expected candidate c.revision instant)) c.handle s := by
  rw [holds_transaction]
  intro s₁ hr hlin
  have hfresh₁ := hr.fresh hfresh
  cases hrun : (compareAndSet sha256 c.handle expected candidate c.revision instant).answer s₁ with
  | error =>
    rw [after_of_error hrun]
    exact ⟨.untouched (untouched_refl s₁), rfl, hfresh₁⟩
  | ok =>
    obtain ⟨s₂, hok⟩ := answer_eq_ok.mp hrun
    obtain ⟨rfl, ho⟩ := compareAndSet_eq_ok hactive htrans hid hok
    rw [after_of_ok hok]
    refine ⟨.overwritten expected _ instant hloaded rfl hfresh₁ hhex ho, rfl, ?_, rfl⟩
    rw [ho.history]
    exact List.mem_cons_self

theorem update_holds (hfresh : c.revision ∉ revisions s) (changes : Changes) (instant : ℚ) :
    Procedure.Holds (Linear sha256) (Relies c) (Guarantee sha256 c) (Settled c)
      (update sha256 changes c.revision instant) c.handle s := by
  have hraise : ∀ e : OwaError, Settled c (Except.error e : Except OwaError Unit) c.handle s :=
    fun _ => ⟨rfl, hfresh⟩
  simp only [update, holds_get_bind, holds_orRaise_bind, holds_orRaiseError_bind,
    holds_raiseIf_bind]
  refine ⟨fun _ => hraise _, fun expected hloaded => ⟨fun e _ => hraise e, fun original hdec =>
    ⟨fun e _ => hraise e, fun _ hident => ⟨fun _ => hraise _, fun htrans =>
      ⟨fun e _ => hraise e, fun _ hcand => ?_⟩⟩⟩⟩⟩
  obtain ⟨-, -, rfl⟩ := decodePayload_eq_ok.mp hdec
  rw [verifyIdentity_eq_ok] at hident hcand
  rw [not_not] at htrans
  by_cases hterm : expected.record.status.terminal = true
  · -- a terminal snapshot is only reloaded
    rw [if_pos hterm]
    refine holds_getInvocation_bind fun s₁ hr hlin => ?_
    have hfresh₁ := hr.fresh hfresh
    rw [holds_raiseIf_bind]
    exact ⟨fun _ => ⟨rfl, hfresh₁⟩, fun _ => refresh_holds hfresh₁ true⟩
  · rw [if_neg hterm, holds_bind]
    have hactive : expected.record.status.terminal = false := by simpa using hterm
    refine holds_mono ?_
      (compareAndSet_holds hhex hfresh hloaded hactive htrans hcand)
    rintro r handle s' ⟨rfl, hr⟩
    cases r with
    | error => exact ⟨rfl, hr⟩
    | ok encoded => exact Or.inr ⟨encoded, hr.1, rfl, hr.2.symm⟩

theorem cancelControlled_holds (hfresh : c.revision ∉ revisions s) (error : Json) (instant : ℚ)
    (parent : Option ExecutionHandle) (lease : Option ExecutionLease) :
    Procedure.Holds (Linear sha256) (Relies c) (Guarantee sha256 c) (Settled c)
      (cancelControlled sha256 error c.revision instant parent lease) c.handle s := by
  have hraise : ∀ e : OwaError, Settled c (Except.error e : Except OwaError Unit) c.handle s :=
    fun _ => ⟨rfl, hfresh⟩
  simp only [cancelControlled, holds_get_bind, holds_orRaise_bind, holds_orRaiseError_bind,
    holds_raiseIf_bind]
  refine ⟨fun _ => hraise _, fun expected hloaded => ⟨fun e _ => hraise e, fun original hdec =>
    ⟨fun e _ => hraise e, fun _ _ => ⟨fun _ => hraise _, fun _ =>
      ⟨fun e _ => hraise e, fun _ _ => ?_⟩⟩⟩⟩⟩
  rw [holds_bind, holds_transaction]
  intro s₁ hr hlin
  have hfresh₁ := hr.fresh hfresh
  cases hrun : (cancelTransaction sha256 c.handle expected original error c.revision instant
      parent lease).answer s₁ with
  | error e =>
    rw [after_of_error hrun]
    exact ⟨.untouched (untouched_refl s₁), rfl, hfresh₁⟩
  | ok result =>
    obtain ⟨s₂, hok⟩ := answer_eq_ok.mp hrun
    obtain ⟨hfst, -, hcases, -⟩ := cancelBody_eq_ok (cancelTransaction_eq_ok hok)
    rw [after_of_ok hok]
    rcases hcases with ⟨hu, hrow, -⟩ | ⟨hrev, -, ho⟩
    · refine ⟨.untouched hu, Or.inr ⟨result.2, ?_, rfl, hfst⟩⟩
      rw [hu.history]
      exact hlin.payload_mem hrow
    · refine ⟨.overwritten expected result.2 instant hloaded hrev (by rw [hrev]; exact hfresh₁)
        (by rw [hrev]; exact hhex) ho, Or.inr ⟨result.2, ?_, rfl, hfst⟩⟩
      rw [ho.history]
      exact List.mem_cons_self

theorem cancelUnderParentControl_holds (hfresh : c.revision ∉ revisions s)
    (parent : ExecutionHandle) (lease : ExecutionLease) (error : Json) (instant : ℚ) :
    Procedure.Holds (Linear sha256) (Relies c) (Guarantee sha256 c) (Settled c)
      (cancelUnderParentControl sha256 parent lease error c.revision instant) c.handle s := by
  unfold cancelUnderParentControl
  rw [holds_raiseIf_bind]
  exact ⟨fun _ => ⟨rfl, hfresh⟩, fun _ =>
    cancelControlled_holds hhex hfresh error instant (some parent) (some lease)⟩

end

/-- A terminal row with the identity of the call's handle. -/
def TerminalRow (c : Call) (s : RuntimeStore) (row : InvocationRow) : Prop :=
  s.invocations.lookup c.invocationId = some row ∧ row.status.terminal = true ∧
    row.payload.record.identity = c.handle.record.identity

/-- A row that was terminal when the call was made is still the same row. -/
theorem Relies.terminalRow (hr : Relies c s s')
    (hfound : c.found = s.invocations.lookup c.invocationId) (hterm : FoundTerminal c) :
    ∃ row, TerminalRow c s' row := by
  obtain ⟨row, hf, ht, hid⟩ := hterm
  rw [hf] at hfound
  exact ⟨row, (hr.terminal _ row hfound.symm ht).1, ht, hid⟩

/-- `terminal_completed_at` answers the recorded instant of an invocation that was
terminal when it was called. -/
theorem terminalCompletedAt_holds (hfresh : c.revision ∉ revisions s)
    (hfound : c.found = s.invocations.lookup c.invocationId) :
    Procedure.Holds (Linear sha256) (Relies c) (Guarantee sha256 c)
      (fun r handle s' => Settled c r handle s' ∧ (FoundTerminal c →
        ∃ row t, s'.invocations.lookup c.invocationId = some row ∧ row.status.terminal = true ∧
          s'.terminalTimes.lookup c.invocationId = some t ∧ r = .ok t.completedAt))
      (terminalCompletedAt sha256) c.handle s := by
  unfold terminalCompletedAt
  rw [holds_get_bind, holds_tryCatch]
  refine holds_getInvocation_bind fun s₁ hr hlin => ?_
  have hfresh₁ := hr.fresh hfresh
  simp only [holds_orRaise_bind, holds_orRaiseError_bind,
    holds_raiseIf_bind, holds_throw]
  refine ⟨fun hnone => ⟨⟨rfl, hfresh₁⟩, fun hterm => ?_⟩, fun current hcurrent =>
    ⟨fun hactive => ⟨⟨rfl, hfresh₁⟩, fun hterm => ?_⟩, fun hactive =>
      ⟨fun e he => ⟨⟨rfl, hfresh₁⟩, fun hterm => ?_⟩, fun _ hident => ?_⟩⟩⟩
  · obtain ⟨row, hrow, -, -⟩ := hr.terminalRow hfound hterm
    rw [Call.invocationId] at hrow
    rw [hrow] at hnone
    cases hnone
  · obtain ⟨row, hrow, ht, -⟩ := hr.terminalRow hfound hterm
    rw [Call.invocationId] at hrow
    rw [hrow, Option.map_some, Option.some.injEq] at hcurrent
    rw [← hcurrent, ← (hlin.snapshotsOf_eq hrow).1, ht] at hactive
    cases hactive
  · obtain ⟨row, hrow, -, hid⟩ := hr.terminalRow hfound hterm
    rw [Call.invocationId] at hrow
    rw [hrow, Option.map_some, Option.some.injEq] at hcurrent
    have hok : verifyIdentity c.handle.record current.record = .ok () := by
      rw [verifyIdentity_eq_ok, ← hcurrent, hid]
    rw [hok] at he
    cases he
  · -- the row that was read is terminal, so it and its time are the same at the second read
    obtain ⟨row, hrow, rfl⟩ := Option.map_eq_some_iff.mp hcurrent
    have hst := (hlin.snapshotsOf_eq hrow).1
    have hterm : row.status.terminal = true := by simpa [hst] using hactive
    rw [holds_bind, holds_transaction]
    intro s₂ hr₂ hlin₂
    obtain ⟨hrow₂, -⟩ := hr₂.terminal _ row hrow hterm
    obtain ⟨t, ht⟩ := Option.isSome_iff_exists.mp
      ((hlin₂.time_iff c.invocationId).mpr ⟨row, hrow₂, hterm⟩)
    obtain ⟨hmatch, hpos⟩ := hlin₂.time_matches _ row t hrow₂ ht
    rw [read_after, read_answer]
    simp only [holds_orRaise_bind, holds_raiseIf_bind, holds_pure]
    rw [Call.invocationId] at ht
    refine ⟨.untouched (untouched_refl s₂), ?_, ?_⟩
    · intro hnone
      rw [ht] at hnone
      cases hnone
    · intro value hvalue
      rw [ht, Option.some.injEq] at hvalue
      subst hvalue
      refine ⟨fun hnone => (by cases hnone), fun stored hstored => ⟨fun hdis => ?_, fun _ =>
        ⟨Or.inl rfl, fun _ => ⟨row, t, hrow₂, hterm, ht, rfl⟩⟩⟩⟩
      rw [Option.some.injEq] at hstored
      subst hstored
      rw [hmatch] at hdis
      simp only [terminalTimeOf, ne_eq, not_true_eq_false, false_or] at hdis
      exact absurd hpos (not_lt.mpr hdis)

/-- **Each call alone.**  Every operation keeps its promises under interference. -/
theorem procedure_holds (hhex : isUuidHex c.revision = true) (hfresh : c.revision ∉ revisions s)
    (hfound : c.found = s.invocations.lookup c.invocationId) :
    Procedure.Holds (Linear sha256) (Relies c) (Guarantee sha256 c)
      (fun r handle s' => Outcome c (r, handle) s')
      (procedure sha256 c.operation c.revision) c.handle s := by
  -- an operation that answers nothing has nothing to show of the terminal time
  have hunit : ∀ {x : Procedure OwaError ExecutionHandle RuntimeStore Unit},
      c.operation ≠ .terminalCompletedAt →
      Procedure.Holds (Linear sha256) (Relies c) (Guarantee sha256 c) (Settled c) x c.handle s →
      Procedure.Holds (Linear sha256) (Relies c) (Guarantee sha256 c)
        (fun r handle s' => Outcome c (r, handle) s')
        (do x; return none : Procedure OwaError ExecutionHandle RuntimeStore (Option ℚ))
        c.handle s := by
    intro x hop hx
    rw [holds_bind]
    refine holds_mono (fun r handle s' hr => ?_) hx
    cases r with
    | error => exact ⟨hr, fun hc => absurd hc hop⟩
    | ok => exact ⟨hr, fun hc => absurd hc hop⟩
  unfold procedure
  cases hop : c.operation with
  | create identity => exact hunit (by simp [hop]) (create_holds hhex hfresh identity)
  | load id => exact hunit (by simp [hop]) (load_holds id)
  | refresh terminalOnly => exact hunit (by simp [hop]) (refresh_holds hfresh terminalOnly)
  | update changes instant =>
    exact hunit (by simp [hop]) (update_holds hhex hfresh changes instant)
  | cancelAuthoritatively error instant =>
    exact hunit (by simp [hop]) (cancelControlled_holds hhex hfresh error instant none none)
  | cancelUnderParentControl parent lease error instant =>
    exact hunit (by simp [hop])
      (cancelUnderParentControl_holds hhex hfresh parent lease error instant)
  | terminalCompletedAt =>
    rw [holds_bind]
    refine holds_mono (fun r handle s' hr => ?_)
      (terminalCompletedAt_holds hfresh hfound)
    cases r with
    | error =>
      refine ⟨hr.1, fun _ hterm => ?_⟩
      obtain ⟨_, _, -, -, -, hans⟩ := hr.2 hterm
      cases hans
    | ok =>
      refine ⟨hr.1, fun _ hterm => ?_⟩
      obtain ⟨row, t, hrow, ht, htime, hans⟩ := hr.2 hterm
      cases hans
      exact ⟨row, t, hrow, ht, htime, rfl⟩

end Operations

/-! ## Every interleaving -/

theorem protocol_sound : (protocol sha256).Sound (Linear sha256) Relies (Guarantee sha256)
    Outcome where
  rely_refl _ s := Relies.of_untouched (untouched_refl s)
  rely_trans _ _ _ _ h₁ h₂ := h₁.trans h₂
  apart_symm _ _ h := fun heq => h heq.symm
  guar_rely _ _ _ _ hne hlin hg := hg.relies hlin hne
  env_rely _ _ _ _ he := Relies.of_untouched he
  guar_inv _ _ _ hlin hg := hg.linear hlin
  env_inv _ _ hlin he := hlin.of_untouched he
  post_stable _ _ _ _ h hr _ := h.stable hr
  body_holds _ _ _ hpre := procedure_holds hpre.1 hpre.2.1 hpre.2.2

/-- What may happen to the record of one invocation over time: its identity stays,
and once terminal it and its terminal time stay as they are. -/
structure Evolves (s s' : RuntimeStore) : Prop where
  history : s.history <:+ s'.history
  identity : ∀ id row, s.invocations.lookup id = some row →
    ∃ row', s'.invocations.lookup id = some row' ∧
      row'.payload.record.identity = row.payload.record.identity
  terminal : ∀ id row, s.invocations.lookup id = some row → row.status.terminal = true →
    s'.invocations.lookup id = some row ∧ s'.terminalTimes.lookup id = s.terminalTimes.lookup id

theorem Evolves.refl (s : RuntimeStore) : Evolves s s :=
  ⟨List.suffix_rfl, fun _ row h => ⟨row, h, rfl⟩, fun _ _ h _ => ⟨h, rfl⟩⟩

theorem Evolves.trans {s₁ s₂ s₃ : RuntimeStore} (h₁ : Evolves s₁ s₂) (h₂ : Evolves s₂ s₃) :
    Evolves s₁ s₃ := by
  refine ⟨h₁.history.trans h₂.history, ?_, ?_⟩
  · intro id row hrow
    obtain ⟨row₂, hrow₂, hid₂⟩ := h₁.identity id row hrow
    obtain ⟨row₃, hrow₃, hid₃⟩ := h₂.identity id row₂ hrow₂
    exact ⟨row₃, hrow₃, hid₃.trans hid₂⟩
  · intro id row hrow hterm
    obtain ⟨hrow₂, ht₂⟩ := h₁.terminal id row hrow hterm
    obtain ⟨hrow₃, ht₃⟩ := h₂.terminal id row hrow₂ hterm
    exact ⟨hrow₃, ht₃.trans ht₂⟩

theorem Evolves.of_untouched {s : RuntimeStore} (hu : Untouched s s') : Evolves s s' := by
  refine ⟨by rw [hu.history], ?_, ?_⟩
  · intro id row hrow
    exact ⟨row, by rw [hu.invocations]; exact hrow, rfl⟩
  · intro id row hrow _
    rw [hu.invocations, hu.terminalTimes]
    exact ⟨hrow, rfl⟩

variable {sha256}

theorem Guarantee.evolves {c : Call} {s : RuntimeStore} (h : Linear sha256 s)
    (hg : Guarantee sha256 c s s') : Evolves s s' := by
  cases hg with
  | untouched hu => exact Evolves.of_untouched hu
  | created encoded _ _ _ hc =>
    -- a row that existed is not the created one
    have hne : ∀ id row, s.invocations.lookup id = some row → id ≠ encoded.invocationId := by
      rintro id row hrow rfl
      rw [hc.absent] at hrow
      cases hrow
    refine ⟨suffix_cons hc.history, fun id row hrow => ⟨row, ?_, rfl⟩, fun id row hrow _ => ?_⟩
    · rw [hc.invocations, Table.lookup_put_ne (hne id row hrow), hrow]
    · rw [hc.invocations, Table.lookup_put_ne (hne id row hrow), hc.terminalTimes]
      exact ⟨hrow, rfl⟩
  | overwritten _ encoded _ _ _ _ _ ho =>
    refine ⟨suffix_cons ho.history, fun id row hrow => ?_, fun id row hrow hterm => ?_⟩
    · rw [ho.invocations, Table.lookup_put]
      by_cases hid : id = encoded.invocationId
      · subst hid
        rw [ho.stored, Option.some.injEq] at hrow
        subst hrow
        exact ⟨_, if_pos rfl, ho.identity⟩
      · exact ⟨row, by rw [if_neg hid, hrow], rfl⟩
    · have hid : id ≠ encoded.invocationId := by
        rintro rfl
        rw [ho.stored, Option.some.injEq] at hrow
        rw [← hrow, ho.active] at hterm
        cases hterm
      rw [ho.invocations, Table.lookup_put_ne hid, h.time_overwrites ho, if_neg hid]
      exact ⟨hrow, rfl⟩

def sampleCreation : Call where
  operation := .create ⟨"i", "langgraph", "e", none, "s", "w", "1", "f", none, none, none⟩
  handle := ⟨⟨⟨"i", "langgraph", "e", none, "s", "w", "1", "f", none, none, none⟩, .running,
    .null, .null⟩, none, none⟩
  revision := "0123456789abcdef0123456789abcdef"
  found := none

end InvocationHistory
