/-
# Authorized effects are mediated completely

Any number of executors call `authorize`, `begin`, `finish_owned` and `finish_child`; any of them
may be lost between two transactions, and leases, invocations and the rest of the database change
meanwhile.  What `get` answers for an effect of an invocation with an enabled policy is backed by
the audit records.

Two facts carry this through every run.  A decision is only ever inserted by the holder of a valid
lease, under the authority record of its invocation, which never changes.  An intent is only ever
inserted where decisions on its effect are recorded, and no decision is ever removed.  The rest is
what `get` checks itself.
-/
import OpenWorkflowAgent.Authorizations

open Transaction

namespace Authorizations

variable (H : Hashing) (children : ChildServices)

/-! ## What the readers prove -/

variable {key : String} {record : AuthorityRecord} {invocation : InvocationIdentity}
  {row : DecisionRow} {value : Option SealRecord}

section Readers

variable {H} {s : AuditStore}

/-- A stored decision that fits an authority record. -/
structure Decides (H : Hashing) (authority : AuthorityRecord) (key : String) (row : DecisionRow) :
    Prop where
  audit : auditFits H authority row.payload = true
  request : requestFits authority row.payload = true
  key : H.key (decisionIdentity H row.payload.businessIdentity row.payload.audit.action
    row.payload.audit.resource) = key
  business : row.businessKey = H.key row.payload.businessIdentity

theorem readDecision_ok {authority : AuthorityRecord} {d : DecisionRecord}
    (h : readDecision H s authority key = .ok d) :
    ∃ row, s.decisions.lookup key = some row ∧ row.payload = d ∧ Decides H authority key row := by
  simp only [readDecision, except_eq_ok] at h
  obtain ⟨row, hrow, _, -, _, -, -, haudit, hrequest, hkey, hcolumns, _, -, -, hd⟩ := h
  rw [not_or, not_not] at hcolumns
  rw [Bool.not_eq_false] at haudit hrequest
  exact ⟨row, hrow, Except.ok.inj hd, haudit, hrequest, not_not.mp hkey, hcolumns.1⟩

theorem readUnbound_ne_some {identity : EffectIdentity} :
    readUnbound H s identity ≠ .ok (some record) := by
  unfold readUnbound
  split
  · exact fun h => by cases h
  · exact fun h => by cases h

theorem readAuthority_ok (h : readAuthority H s invocation = .ok (some record)) :
    ∃ row, s.authorities.lookup invocation.invocationId = some row ∧ row.payload = record := by
  simp only [readAuthority, except_bind_eq_ok] at h
  obtain ⟨identity, -, h⟩ := h
  cases hrow : s.authorities.lookup invocation.invocationId with
  | none =>
    rw [hrow] at h
    exact absurd h readUnbound_ne_some
  | some row =>
    rw [hrow] at h
    simp only [except_bind_eq_ok] at h
    obtain ⟨_, -, _, -, _, -, _, -, h⟩ := h
    exact ⟨row, rfl, Option.some.inj (Except.ok.inj h)⟩

/-- Where an authority is stored, it is read with the digest of its policy, or an error is raised. -/
theorem readAuthority_of_row {row : AuditRow AuthorityRecord} {found : Option AuthorityRecord}
    (hrow : s.authorities.lookup invocation.invocationId = some row)
    (h : readAuthority H s invocation = .ok found) :
    found = some row.payload ∧ row.payload.policyDigest = H.digest (.policy row.payload.policy) := by
  simp only [readAuthority, except_bind_eq_ok] at h
  obtain ⟨identity, -, h⟩ := h
  rw [hrow] at h
  simp only [authorityFits, except_eq_ok] at h
  obtain ⟨_, -, ⟨original, -, hpolicy, -⟩, _, -, -, h⟩ := h
  rw [not_or, not_not, not_not] at hpolicy
  exact ⟨(Except.ok.inj h).symm, hpolicy.2⟩

theorem storedRecord_ok {α : Type} {wrap : α → Record} {row : Option (AuditRow α)} {a : α}
    (h : storedRecord H wrap row = .ok (some a)) : ∃ r, row = some r ∧ r.payload = a := by
  cases row with
  | none => cases h
  | some r =>
    unfold storedRecord at h
    dsimp only at h
    split at h
    · cases h
    · split at h
      · cases h
      · exact ⟨r, rfl, Option.some.inj (Except.ok.inj h)⟩

theorem readHandle_ok {invocationId : String} {handle : ExecutionHandle}
    (h : readHandle s invocationId = .ok (some handle)) :
    handle.record.identity.invocationId = invocationId := by
  obtain ⟨r, hrun⟩ := answer_eq_ok.mp h
  unfold Invocations.getInvocation at hrun
  rw [bind_eq_ok] at hrun
  obtain ⟨row, r₁, hread, hrun⟩ := hrun
  cases row with
  | none =>
    rw [pure_eq_ok] at hrun
    cases hrun.1
  | some =>
    simp only [mapError_eq_ok, run_eq_ok] at hrun
    obtain ⟨record, -, hcolumns, hhandle, -⟩ := hrun
    rw [not_or, not_not] at hcolumns
    rw [← Option.some.inj hhandle]
    exact hcolumns.1

theorem mem_decisionKeys {businessKey : String} : key ∈ decisionKeys s businessKey ↔
      ∃ row, s.decisions.lookup key = some row ∧ row.businessKey = businessKey := by
  unfold decisionKeys
  rw [List.mem_insertionSort, List.mem_map]
  constructor
  · rintro ⟨⟨k, row⟩, hmem, rfl⟩
    obtain ⟨hrow, hbusiness⟩ := Table.mem_selectRows.mp hmem
    exact ⟨row, Table.mem_rows.mp hrow, of_decide_eq_true hbusiness⟩
  · rintro ⟨row, hrow, hbusiness⟩
    exact ⟨(key, row), Table.mem_selectRows.mpr
      ⟨Table.mem_rows.mpr hrow, decide_eq_true hbusiness⟩, rfl⟩

end Readers

/-! ## What the calls record -/

/-- The decision is one of the holder of a valid lease of its invocation. -/
def Made (s : AuditStore) (row : DecisionRow) : Prop :=
  ∃ lease : ExecutionLease, Ownership.writeGuard lease s.journal.runtime.owners = true ∧
    lease.invocationId = row.payload.businessIdentity.invocationId ∧
    lease.workflowFingerprint = row.payload.businessIdentity.workflowFingerprint ∧
    row.payload.audit.generation = lease.generation

/-- Some decision on the effect is recorded. -/
def DecidedOn (s : AuditStore) (businessKey : String) : Prop :=
  ∃ key row, s.decisions.lookup key = some row ∧ row.businessKey = businessKey

/-- Every decision fits the authority of its invocation, and every intent was decided on. -/
structure Mediated (s : AuditStore) : Prop where
  decided : ∀ key row, s.decisions.lookup key = some row →
    ∃ admitted, s.authorities.lookup row.payload.businessIdentity.invocationId = some admitted ∧
      Decides H admitted.payload key row
  intended : ∀ key intent, s.intents.lookup key = some intent → DecidedOn s key

/-- Authorities are never changed. -/
def AuthoritiesKept (s s' : AuditStore) : Prop :=
  ∀ i row, s.authorities.lookup i = some row → s'.authorities.lookup i = some row

/-- What a step can do to the records. -/
structure Records (s s' : AuditStore) : Prop where
  authorities : AuthoritiesKept s s'
  decisions : ∀ key row, s.decisions.lookup key = some row → s'.decisions.lookup key = some row
  decided : ∀ key row, s'.decisions.lookup key = some row →
    s.decisions.lookup key = some row ∨ (s.decisions.lookup key = none ∧ Made s row ∧
      ∃ admitted, s'.authorities.lookup row.payload.businessIdentity.invocationId = some admitted ∧
        Decides H admitted.payload key row)
  intended : ∀ key intent, s'.intents.lookup key = some intent →
    s.intents.lookup key = some intent ∨ DecidedOn s' key

/-- A step that decides nothing: intents are added where decisions are recorded. -/
structure Intends (s s' : AuditStore) : Prop where
  authorities : s'.authorities = s.authorities
  decisions : s'.decisions = s.decisions
  intended : ∀ key intent, s'.intents.lookup key = some intent →
    s.intents.lookup key = some intent ∨ DecidedOn s' key

theorem Intends.of_eq {s s' : AuditStore} (hauthorities : s'.authorities = s.authorities)
    (hdecisions : s'.decisions = s.decisions) (hintents : s'.intents = s.intents) :
    Intends s s' :=
  ⟨hauthorities, hdecisions, fun key intent h => .inl (by rw [← hintents]; exact h)⟩

instance : IsPreorder AuditStore Intends where
  refl s := .of_eq rfl rfl rfl
  trans s₁ s₂ s₃ h₁ h₂ := by
    refine ⟨h₂.authorities.trans h₁.authorities, h₂.decisions.trans h₁.decisions, ?_⟩
    intro key intent h
    rcases h₂.intended key intent h with h | h
    · rcases h₁.intended key intent h with h | h
      · exact .inl h
      · right
        unfold DecidedOn
        rw [h₂.decisions]
        exact h
    · exact .inr h

theorem Intends.records {s s' : AuditStore} (h : Intends s s') : Records H s s' where
  authorities i row hrow := by rw [h.authorities]; exact hrow
  decisions key row hrow := by rw [h.decisions]; exact hrow
  decided key row hrow := .inl (by rw [← h.decisions]; exact hrow)
  intended := h.intended

/-! ### Transactions that decide nothing -/

section Intents

variable {H children} {α : Type}

theorem intends_getReceipt (identity : EffectIdentity) :
    Commits Intends (getReceipt H children identity) :=
  (commits_read _).bind fun answer => commits_orRaiseError answer

theorem intends_writeJournal (f : JournalStore → JournalStore) :
    Commits Intends (writeJournal f) := commits_write fun _ => .of_eq rfl rfl rfl

theorem intends_insertCompleted (identity : EffectIdentity) (receipt : EffectReceipt) :
    Commits Intends (insertCompleted H children identity receipt) :=
  (commits_read _).bind fun _ => commits_zoom _ fun _ _ => .of_eq rfl rfl rfl

theorem intends_guarded (lease : ExecutionLease) (message : String) :
    Commits Intends (guarded lease message) :=
  (commits_read _).bind fun _ => commits_raiseIf _ _

theorem intends_owned (owners : AuditStore → OwnershipStore) (lease : Option ExecutionLease)
    (invocationId fingerprint : String) {body : AuditTransaction α} (h : Commits Intends body) :
    Commits Intends (Ownership.ownedWriteTransaction owners lease invocationId fingerprint body) :=
  fun s a s' hrun => h s a s' (Ownership.ownedWriteTransaction_eq_ok.mp hrun).2

/-- The one place where an intent is inserted: its effect has a decision. -/
theorem intends_insertIntent (identity : EffectIdentity) (receipt : EffectReceipt)
    (lease : ExecutionLease) (authority : AuthorityRecord) :
    Commits Intends (insertIntent H children identity receipt lease authority) := by
  refine (commits_raiseIf _ _).bind fun _ => commits_read_bind fun s b s' hrun => ?_
  simp only [id, run_eq_ok] at hrun
  obtain ⟨hkeys, -, -, -, _, -, s₂, hinsert, hguard⟩ := hrun
  -- The list of keys is not empty, so one of them is the key of a decision on the effect.
  have hdecided : DecidedOn s (H.key identity) := by
    rw [not_or] at hkeys
    obtain ⟨key, hkey⟩ := List.exists_mem_of_ne_nil _ hkeys.1
    obtain ⟨row, hrow, hbusiness⟩ := mem_decisionKeys.mp (List.mem_of_mem_take hkey)
    exact ⟨key, row, hrow, hbusiness⟩
  have hrest := IsTrans.trans (r := Intends) _ _ _
    (intends_insertCompleted _ _ _ _ _ hinsert) (intends_guarded _ _ _ _ _ hguard)
  refine IsTrans.trans s _ s' ?_ hrest
  refine ⟨rfl, rfl, fun key intent h => ?_⟩
  by_cases hk : key = H.key identity
  · subst hk
    exact .inr hdecided
  · change (Table.put _ _ _).lookup key = some intent at h
    rw [Table.lookup_put_ne hk] at h
    exact .inl h

theorem intends_recordIntent (identity : EffectIdentity) (receipt : EffectReceipt)
    (lease : ExecutionLease) (first : Bool) (authority : AuthorityRecord)
    (existing : Option IntentRecord) :
    Commits Intends (recordIntent H children identity receipt lease first authority existing) := by
  unfold recordIntent
  split
  · exact commits_throw _
  · split
    · exact (commits_read _).bind fun _ => (commits_orRaiseError _).bind fun _ => commits_pure _
    · exact intends_insertIntent identity receipt lease authority

theorem intends_sealIntent (e : Executor) (identity : EffectIdentity) (receipt : EffectReceipt)
    (lease : Option ExecutionLease) (first : Bool) :
    Commits Intends (sealIntent H children e identity receipt lease first) := by
  unfold sealIntent
  split
  · exact commits_pure _
  refine (commits_read _).bind fun _ => (commits_orRaiseError _).bind fun handle => ?_
  cases handle with
  | none => exact (commits_read _).bind fun _ => commits_raiseIf _ _
  | some =>
    refine (commits_read _).bind fun _ => (commits_orRaiseError _).bind fun authority => ?_
    cases authority with
    | none => exact (commits_read _).bind fun _ => commits_raiseIf _ _
    | some authority =>
      unfold sealIntentOf
      dsimp only
      split
      · exact commits_pure _
      · exact (commits_raiseIf _ _).bind fun _ => (commits_orRaiseError _).bind fun _ =>
          (commits_orRaise _ _).bind fun lease => (commits_raiseIf _ _).bind fun _ =>
            (intends_guarded _ _).bind fun _ => (commits_read _).bind fun _ =>
              (commits_orRaiseError _).bind fun existing =>
                intends_recordIntent identity receipt lease first authority existing

theorem intends_begin (c : BeginCall) : Commits Intends (c.store H children) := by
  refine Commits.mapError ((commits_orRaiseError _).bind fun proposed =>
    intends_owned _ _ _ _ ?_) _
  refine (intends_getReceipt _).bind fun existing => (commits_read _).bind fun index =>
    (commits_read _).bind fun _ => (intends_writeJournal _).bind fun _ => ?_
  unfold participateIntent
  split
  · exact intends_sealIntent _ _ _ _ _
  · exact commits_pure _

theorem intends_writeSeal (identity : EffectIdentity) (value : SealRecord) :
    Commits Intends (writeSeal H children identity value) :=
  (commits_read _).bind fun _ => (commits_orRaiseError _).bind fun _ =>
    (commits_raiseIf _ _).bind fun _ => (commits_raiseIf _ _).bind fun _ =>
      (commits_write fun _ => .of_eq rfl rfl rfl).bind fun _ =>
        (commits_orRaiseError _).bind fun _ => intends_insertCompleted _ _

theorem intends_sealUnder (identity : EffectIdentity) (receipt : EffectReceipt)
    (lease : Option ExecutionLease) (authority : AuthorityRecord) :
    Commits Intends (sealUnder H children identity receipt lease authority) :=
  (commits_orRaise _ _).bind fun _ => (commits_raiseIf _ _).bind fun _ =>
    (intends_guarded _ _).bind fun _ => (commits_raiseIf _ _).bind fun _ =>
      (commits_read _).bind fun _ => (commits_raiseIf _ _).bind fun _ =>
        (commits_orRaiseError _).bind fun _ => (commits_orRaiseError _).bind fun _ =>
          (intends_writeSeal _ _).bind fun _ => intends_guarded _ _

theorem intends_sealBusiness (e : Executor) (identity : EffectIdentity) (receipt : EffectReceipt)
    (lease : Option ExecutionLease) :
    Commits Intends (sealBusiness H children e identity receipt lease) := by
  unfold sealBusiness
  split
  · exact commits_pure _
  refine (commits_read _).bind fun _ => (commits_orRaiseError _).bind fun handle => ?_
  cases handle with
  | none => exact (commits_read _).bind fun _ => commits_raiseIf _ _
  | some =>
    refine (commits_read _).bind fun _ => (commits_orRaiseError _).bind fun authority => ?_
    cases authority with
    | none => exact (commits_read _).bind fun _ => commits_raiseIf _ _
    | some =>
      refine (commits_read _).bind fun _ => (commits_orRaiseError _).bind fun _ =>
        (commits_orRaise _ _).bind fun record => ?_
      split
      · exact commits_pure _
      · exact intends_sealUnder identity receipt lease record

theorem intends_ifPending (recorded : EffectReceipt) (settled : α) {resolve : AuditTransaction α}
    (h : Commits Intends resolve) :
    Commits Intends (FinishCall.ifPending recorded settled resolve) := by
  unfold FinishCall.ifPending
  split
  · exact commits_pure _
  · exact h

theorem intends_finishOwned (c : FinishCall) : Commits Intends (c.owned H children) := by
  refine (commits_orRaise _ _).bind fun lease => Commits.mapError (intends_owned _ _ _ _ ?_) _
  refine (intends_getReceipt _).bind fun _ => (commits_orRaise _ _).bind fun recorded =>
    (commits_raiseIf _ _).bind fun _ => intends_ifPending recorded recorded ?_
  exact (commits_orRaiseError _).bind fun _ => (intends_sealBusiness _ _ _ _).bind fun _ =>
    (commits_read _).bind fun _ => (intends_writeJournal _).bind fun _ =>
      (intends_getReceipt _).bind fun _ => (commits_raiseIf _ _).bind fun _ =>
        (intends_guarded _ _).bind fun _ => commits_pure _

theorem intends_finishChild (c : FinishCall) : Commits Intends (c.child H children) := by
  refine (commits_raiseIf _ _).bind fun _ => (commits_orRaise _ _).bind fun lease =>
    intends_owned _ _ _ _ ?_
  refine (intends_getReceipt _).bind fun _ => (commits_orRaise _ _).bind fun recorded =>
    (commits_raiseIf _ _).bind fun _ => intends_ifPending recorded (some recorded) ?_
  exact (commits_read _).bind fun _ => (commits_orRaiseError _).bind fun _ =>
    (commits_read _).bind fun _ => (commits_raiseIf _ _).bind fun _ =>
      (commits_read _).bind fun _ => (commits_raiseIf _ _).bind fun _ =>
        (commits_orRaiseError _).bind fun _ => (intends_sealBusiness _ _ _ _).bind fun _ =>
          (commits_read _).bind fun _ => (intends_writeJournal _).bind fun _ => commits_pure _

end Intents

/-! ### The transaction that decides -/

section Decisions

variable {H children} {s s' : AuditStore}

def Known (invocation : InvocationIdentity) (record : AuthorityRecord) (s : AuditStore) : Prop :=
  ∃ row, s.authorities.lookup invocation.invocationId = some row ∧ row.payload = record

theorem Known.mono (h : Known invocation record s) (hkept : AuthoritiesKept s s') :
    Known invocation record s' := by
  obtain ⟨row, hrow, hrecord⟩ := h
  exact ⟨row, hkept _ _ hrow, hrecord⟩

theorem storedRecord_none {α : Type} {wrap : α → Record} {row : Option (AuditRow α)}
    (h : storedRecord H wrap row = .ok none) : row = none := by
  cases row with
  | none => rfl
  | some =>
    unfold storedRecord at h
    dsimp only at h
    split at h
    · cases h
    · split at h <;> cases h

/-- A decision is inserted under the lease that was checked, and fits the known authority. -/
theorem records_store {c : AuthorizeCall} {authority : Authority} {d : AuthorizationDecision}
    (hknown : Known c.invocation record s)
    (h : (c.store H children authority record).run s = .ok (d, s')) : Records H s s' := by
  simp only [AuthorizeCall.store, run_eq_ok, Ownership.ownedWriteTransaction_eq_ok] at h
  obtain ⟨hids, lease, hlease, -, howned, hdecide⟩ := h
  obtain ⟨hinvocation, hfingerprint, hguard⟩ := howned lease rfl
  rw [not_or, not_not, not_not] at hids
  simp only [AuthorizeCall.decide, run_eq_ok] at hdecide
  obtain ⟨original, horiginal, s₁, hinsert, _, -, s₂, hcompleted, _, hread, s₃, hguarded, -, rfl⟩ :=
    hdecide
  have hafter : Intends s₁ s₂ := intends_insertCompleted _ _ _ _ _ hcompleted
  have hrest : Intends s₁ s₃ := IsTrans.trans _ _ _ hafter (intends_guarded _ _ _ _ _ hguarded)
  obtain ⟨stored, hstored, -, hfits⟩ := readDecision_ok hread
  rw [id, hafter.decisions] at hstored
  cases original with
  | some =>
    -- The decision was there before.
    rw [AuthorizeCall.insert, raiseIf_eq_ok] at hinsert
    rw [← hinsert.2] at hrest
    exact hrest.records H
  | none =>
    have hnone : s.decisions.lookup (H.key (c.selected H)) = none :=
      Option.map_eq_none_iff.mp (storedRecord_none horiginal)
    simp only [AuthorizeCall.insert, run_eq_ok] at hinsert
    obtain ⟨-, -, rfl⟩ := hinsert
    have hnew : stored.payload = c.decided H authority record lease.generation none := by
      rw [← Option.some.inj ((Table.lookup_put_self).symm.trans hstored)]
    refine ⟨fun i r hr => ?_, fun key r hr => ?_, fun key r hr => ?_, fun key i hi => ?_⟩
    · rw [hrest.authorities]
      exact hr
    · rw [hrest.decisions]
      have hne : key ≠ H.key (c.selected H) := by
        rintro rfl
        rw [hnone] at hr
        cases hr
      exact (Table.lookup_put_ne hne).trans hr
    · rw [hrest.decisions] at hr
      by_cases hk : key = H.key (c.selected H)
      · subst hk
        have hr : r = stored := Option.some.inj (hr.symm.trans hstored)
        subst hr
        obtain ⟨admitted, hadmitted, hrecord⟩ := hknown
        refine .inr ⟨hnone, ⟨lease, hguard, ?_, ?_, ?_⟩, admitted, ?_, ?_⟩
        · rw [hnew]
          exact hinvocation.trans hids.1.symm
        · rw [hnew]
          exact hfingerprint.trans hids.2.symm
        · rw [hnew]
          rfl
        · rw [hrest.authorities, hnew]
          show s.authorities.lookup c.identity.invocationId = some admitted
          rw [hids.1]
          exact hadmitted
        · rw [hrecord]
          exact hfits
      · left
        exact (Table.lookup_put_ne hk).symm.trans hr
    · exact hrest.intended key i hi

end Decisions

/-! ## Every interleaving -/

/-- Leases are taken over, invocations run, effects of other kinds are recorded, authorities are
admitted: only the decisions and the intents are left to the calls. -/
def Elsewhere (s s' : AuditStore) : Prop :=
  AuthoritiesKept s s' ∧ s'.decisions = s.decisions ∧ s'.intents = s.intents

/-- Executors promise nothing. -/
def protocol : Protocol Call AuditStore (Except OwaError Answer × Unit) where
  body c := (body H children c).start ()
  pre _ _ := True
  apart _ _ := True
  env := Elsewhere

section Runs

variable {H children} {s s' : AuditStore}

theorem Elsewhere.records (h : Elsewhere s s') : Records H s s' where
  authorities := h.1
  decisions key row hrow := by rw [h.2.1]; exact hrow
  decided key row hrow := .inl (by rw [← h.2.1]; exact hrow)
  intended key intent hi := .inl (by rw [← h.2.2]; exact hi)

theorem DecidedOn.mono {businessKey : String} (h : DecidedOn s businessKey)
    (hr : Records H s s') : DecidedOn s' businessKey := by
  obtain ⟨key, row, hrow, hbusiness⟩ := h
  exact ⟨key, row, hr.decisions key row hrow, hbusiness⟩

theorem mediated_of_empty (hdecisions : s.decisions = ∅) (hintents : s.intents = ∅) :
    Mediated H s := by
  constructor
  · intro key row hrow
    rw [hdecisions] at hrow
    cases hrow
  · intro key intent hi
    rw [hintents] at hi
    cases hi

/-- **One step.**  Whatever a step records, the records stay in order. -/
theorem Mediated.records (h : Mediated H s) (hr : Records H s s') : Mediated H s' where
  decided := by
    intro key row hrow
    rcases hr.decided key row hrow with hrow | ⟨-, -, hnew⟩
    · obtain ⟨admitted, hadmitted, hdecides⟩ := h.decided key row hrow
      exact ⟨admitted, hr.authorities _ _ hadmitted, hdecides⟩
    · exact hnew
  intended := by
    intro key intent hi
    rcases hr.intended key intent hi with hi | hi
    · exact (h.intended key intent hi).mono hr
    · exact hi

/-- What the calls make of their transactions: they record, and rely on nothing. -/
def Tame {α : Type} (x : Run α) : Prop :=
  Procedure.Keeps (Mediated H) AuthoritiesKept (Records H) (fun _ _ => True) x

open Procedure

theorem tame_transaction {α : Type} {t : AuditTransaction α} (ht : Commits Intends t) :
    Tame (H := H) (transaction t : Run α) :=
  keeps_transaction (fun _ _ _ h _ _ => h) (fun s _ => (ht.after s).records H) fun _ _ h _ => h

theorem tame_silent {α : Type} {x : Run α} (hx : Silent x) : Tame (H := H) x := hx.keeps

theorem tame_begin (c : BeginCall) : Tame (H := H) (c.run H children) :=
  (tame_transaction (intends_begin c)).bind fun _ =>
    (tame_transaction (intends_getReceipt _)).bind fun _ =>
      (tame_silent (silent_orRaise _ _)).bind fun _ =>
        (tame_silent (silent_raiseIf _ _)).bind fun _ => keeps_pure _

theorem tame_finishChild (c : FinishCall) : Tame (H := H) (c.runChild H children) := by
  refine (tame_transaction (intends_finishChild c)).bind fun settled => ?_
  cases settled with
  | some recorded => exact keeps_pure recorded
  | none =>
    exact (tame_transaction (intends_getReceipt _)).bind fun _ =>
      (tame_silent (silent_orRaise _ _)).bind fun _ =>
        (tame_silent (silent_raiseIf _ _)).bind fun _ => keeps_pure _

/-- Under a record that is known to be the stored one, the decision is recorded. -/
theorem holds_under (c : AuthorizeCall) (authority : Authority) (record : AuthorityRecord)
    (hknown : Known c.invocation record s) :
    Holds (Mediated H) AuthoritiesKept (Records H) (fun _ _ _ => True)
      (c.under H children authority record) () s := by
  unfold AuthorizeCall.under
  split
  · exact trivial
  rw [holds_bind, holds_transaction]
  intro s₁ hkept hs₁
  refine ⟨?_, ?_⟩
  · exact after_induction (P := Records H s₁) (Intends.records H (refl s₁)) fun a s' hrun =>
      records_store (hknown.mono hkept) hrun
  · cases (c.store H children authority record).answer s₁ with
    | ok => exact trivial
    | error => exact trivial

/-- The authority record is read in one transaction and used in the next. -/
theorem tame_bound (c : AuthorizeCall) (authority : Option Authority) :
    Tame (H := H) (c.bound H children authority) := by
  cases authority with
  | none => exact keeps_pure _
  | some authority =>
    intro _ s _
    unfold AuthorizeCall.bound
    dsimp only
    rw [holds_bind, holds_transaction]
    intro s₁ _ _
    refine ⟨Intends.records H (refl s₁), ?_⟩
    simp only [read_answer, read_after]
    rw [holds_orRaiseError_bind]
    refine ⟨fun _ _ => trivial, fun value hvalue => ?_⟩
    rw [holds_orRaise_bind]
    refine ⟨fun _ => trivial, fun record hrecord => ?_⟩
    subst hrecord
    exact holds_under c authority record (readAuthority_ok hvalue)

theorem tame_authorize (c : AuthorizeCall) : Tame (H := H) (c.run H children) :=
  (tame_transaction (commits_read _)).bind fun _ => (tame_silent (silent_orRaiseError _)).bind
    fun authority => (tame_silent (silent_orRaiseError _)).bind fun _ => tame_bound c authority

theorem protocol_sound : (protocol H children).Sound (Mediated H) (fun _ => AuthoritiesKept)
    (fun _ => Records H) fun _ _ _ => True where
  rely_refl _ _ := fun _ _ h => h
  rely_trans _ _ _ _ h₁ h₂ := fun i row h => h₂ i row (h₁ i row h)
  apart_symm _ _ _ := trivial
  guar_rely _ _ _ _ _ _ hg := hg.authorities
  env_rely _ _ _ _ h := h.1
  guar_inv _ _ _ hs hg := hs.records hg
  env_inv _ _ hs h := hs.records h.records
  post_stable := fun _ _ _ _ h _ _ => h
  body_holds := by
    intro c s _ _
    cases c with
    | authorize c => exact ((tame_authorize c).bind fun _ => keeps_pure _) () s trivial
    | beginEffect c => exact ((tame_begin c).bind fun _ => keeps_pure _) () s trivial
    | finishOwned c =>
      exact ((tame_transaction (intends_finishOwned c)).bind fun _ => keeps_pure _) () s trivial
    | finishChild c => exact ((tame_finishChild c).bind fun _ => keeps_pure _) () s trivial

end Runs

/-! ## What `get` answers -/

section Answers

variable {H children} {s : AuditStore} {identity : EffectIdentity} {receipt : EffectReceipt}
  {admitted : AuditRow AuthorityRecord}

theorem verifyBusinessReceipt_of_readReceipt
    (h : readReceipt H children identity s = .ok (some receipt)) :
    verifyBusinessReceipt H s identity receipt = .ok () := by
  have hverify := EffectJournal.readReceipt_verified h
  have hok : (verifyBusinessReceipt H s identity receipt).isOk = true :=
    (Bool.and_eq_true_iff.mp hverify).1
  cases hresult : verifyBusinessReceipt H s identity receipt with
  | ok => rfl
  | error =>
    rw [hresult] at hok
    cases hok

theorem authorityHint_of_row (hrow : s.authorities.lookup identity.invocationId = some admitted) :
    authorityHint H s identity = true := by
  simp [authorityHint, hrow]

theorem verifyProtected_of_readReceipt (hseal : requiresAuthorizationSeal identity = true)
    (hrow : s.authorities.lookup identity.invocationId = some admitted)
    (henabled : admitted.payload.policy.enabled = true)
    (h : readReceipt H children identity s = .ok (some receipt)) :
    admitted.payload.policyDigest = H.digest (.policy admitted.payload.policy) ∧
      ∃ value, storedRecord H .outcome (s.outcomes.lookup (H.key identity)) = .ok value ∧
        verifyProtected H s admitted.payload identity receipt value = .ok () := by
  have hverify := verifyBusinessReceipt_of_readReceipt h
  unfold verifyBusinessReceipt at hverify
  rw [if_neg (by rw [hseal]; exact Bool.true_eq_false_eq_False), except_bind_eq_ok] at hverify
  obtain ⟨handle, hhandle, hverify⟩ := hverify
  cases handle with
  | none =>
    rw [verifyOf, except_raiseIf_eq_ok, authorityHint_of_row hrow] at hverify
    exact absurd rfl hverify
  | some =>
    simp only [verifyOf, except_eq_ok] at hverify
    obtain ⟨_, found, hfound, value, hvalue, hunder⟩ := hverify
    rw [← readHandle_ok hhandle] at hrow
    obtain ⟨rfl, hpolicy⟩ := readAuthority_of_row hrow hfound
    rw [verifyUnder, if_neg (by rw [henabled]; exact Bool.true_eq_false_eq_False)] at hunder
    exact ⟨hpolicy, value, hvalue, hunder⟩

/-- A pending receipt has an intent that fixes its owner and its request. -/
theorem intent_of_pending (hpending : receipt.status = .pending)
    (h : verifyProtected H s admitted.payload identity receipt value = .ok ()) :
    ∃ intent, s.intents.lookup (H.key identity) = some intent ∧
      intent.payload.businessIdentity = identity ∧
      intent.payload.pendingReceipt.owner = receipt.owner ∧
      intent.payload.pendingReceipt.requestDigest = receipt.requestDigest := by
  simp only [verifyProtected, except_bind_eq_ok] at h
  obtain ⟨_, -, _, -, _, hintent, -⟩ := h
  rw [verifyIntent, if_pos (.inr (.inl hpending)), except_bind_eq_ok] at hintent
  obtain ⟨record, hread, -⟩ := hintent
  simp only [readIntent, except_eq_ok] at hread
  obtain ⟨value, hvalue, _, -, _, record', rfl, hbusiness, original, horiginal, hfits, _, _, -, -,
    -⟩ := hread
  obtain ⟨row, hrow, rfl⟩ := storedRecord_ok hvalue
  rw [not_or, not_not] at hbusiness
  have hfields := EffectReceipt.make_eq_ok horiginal
  simp only [intentFits, Bool.decide_and, Bool.not_eq_false, Bool.and_eq_true,
    decide_eq_true_eq] at hfits
  obtain ⟨-, -, -, -, -, hdigest, howner, -⟩ := hfits
  rw [hfields] at hdigest howner
  exact ⟨row, hrow, hbusiness.1, howner, hdigest⟩

/-- A terminal receipt has a seal that names its digest and all decisions on the effect. -/
theorem seal_of_terminal (hterminal : receipt.status ≠ .pending)
    (hvalue : storedRecord H .outcome (s.outcomes.lookup (H.key identity)) = .ok value)
    (h : verifyProtected H s admitted.payload identity receipt value = .ok ()) :
    ∃ outcome, s.outcomes.lookup (H.key identity) = some outcome ∧
      outcome.payload.businessIdentity = identity ∧
      outcome.payload.receiptDigest = H.digest (.receipt receipt.toReceiptFields) ∧
      outcome.payload.decisions ≠ [] ∧
      outcome.payload.decisions.map SealedDecision.key = decisionKeys s (H.key identity) := by
  simp only [verifyProtected, except_bind_eq_ok] at h
  obtain ⟨_, -, intent, -, _, -, houtcome⟩ := h
  rw [verifyOutcome, if_neg hterminal, except_bind_eq_ok] at houtcome
  obtain ⟨record, hrecord, hseal⟩ := houtcome
  rw [except_orRaise_eq_ok.mp hrecord] at hvalue
  obtain ⟨row, hrow, rfl⟩ := storedRecord_ok hvalue
  simp only [verifySeal, except_eq_ok] at hseal
  obtain ⟨hfits, -, hlength, hkeys, _, _, -, -⟩ := hseal
  rw [not_or, not_not, not_or, not_or, not_not, not_not] at hfits
  rw [not_or, not_lt] at hlength
  rw [not_not] at hkeys
  refine ⟨row, hrow, hfits.1, hfits.2.2.1, hlength.1, ?_⟩
  -- The `LIMIT` cut nothing off: at most `maxBusinessDecisions` keys came back.
  have htake : (limitedKeys s (H.key identity)).length ≤ maxBusinessDecisions := by
    rw [← hkeys, List.length_map]
    exact hlength.2
  unfold limitedKeys at htake hkeys
  rw [List.length_take] at htake
  have hshort : (decisionKeys s (H.key identity)).length ≤ maxBusinessDecisions + 1 := by omega
  rw [hkeys, List.take_of_length_le hshort]

/-- In either case there is a decision on the effect. -/
theorem decidedOn_of_verifyProtected (hs : Mediated H s)
    (hvalue : storedRecord H .outcome (s.outcomes.lookup (H.key identity)) = .ok value)
    (h : verifyProtected H s admitted.payload identity receipt value = .ok ()) :
    DecidedOn s (H.key identity) := by
  by_cases hpending : receipt.status = .pending
  · obtain ⟨intent, hintent, -⟩ := intent_of_pending hpending h
    exact hs.intended _ intent hintent
  · obtain ⟨outcome, -, -, -, hne, hkeys⟩ := seal_of_terminal hpending hvalue h
    have hne' : decisionKeys s (H.key identity) ≠ [] := by
      rw [← hkeys]
      exact fun hnil => hne (List.map_eq_nil_iff.mp hnil)
    obtain ⟨key, hkey⟩ := List.exists_mem_of_ne_nil _ hne'
    obtain ⟨row, hrow, hbusiness⟩ := mem_decisionKeys.mp hkey
    exact ⟨key, row, hrow, hbusiness⟩

/-- Keys of effects do not collide, so a decision under the key is one on the effect. -/
theorem Mediated.businessIdentity_eq (hkey : Function.Injective H.key) (hs : Mediated H s)
    (hrow : s.decisions.lookup key = some row) :
    row.businessKey = H.key identity ↔ row.payload.businessIdentity = identity := by
  obtain ⟨_, -, hdecides⟩ := hs.decided key row hrow
  rw [hdecides.business]
  exact hkey.eq_iff

end Answers

/-! ## Complete mediation -/

/-- The decision allows the effect to the admitted principal under the admitted policy. -/
structure Backs (H : Hashing) (admitted : AuthorityRecord) (identity : EffectIdentity)
    (d : DecisionRecord) : Prop where
  identity : d.businessIdentity = identity
  allows : d.audit.decision = "allow"
  principal : d.audit.principal = admitted.authority.principal.identity
  policy : d.audit.policyDigest = H.digest (.policy admitted.policy)
  authority : d.authorityDigest = H.digest (.authority admitted)
  permits : permitted admitted.authority.principal admitted.policy d.audit.action d.audit.resource

theorem Decides.backs {H : Hashing} {admitted : AuthorityRecord} (h : Decides H admitted key row)
    (hpolicy : admitted.policyDigest = H.digest (.policy admitted.policy)) :
    Backs H admitted row.payload.businessIdentity row.payload := by
  have haudit := h.audit
  have hrequest := h.request
  simp only [auditFits, requestFits, Bool.decide_and, Bool.and_eq_true, decide_eq_true_eq]
    at haudit hrequest
  obtain ⟨hauthority, hprincipal, hallow, hdigest, -⟩ := haudit
  obtain ⟨-, -, -, -, hpermits⟩ := hrequest
  exact ⟨rfl, hallow, hprincipal, hdigest.trans hpolicy, hauthority, hpermits⟩

abbrev AuditPool := Pool Call AuditStore (Except OwaError Answer × Unit)

/-- The decision was inserted in the run by the holder of a valid lease. -/
def MadeIn (P : Protocol Call AuditStore (Except OwaError Answer × Unit)) (start p : AuditPool)
    (key : String) (row : DecisionRow) : Prop :=
  ∃ q q', P.Steps start q ∧ P.Step q q' ∧ P.Steps q' p ∧ q.store.decisions.lookup key = none ∧
    q'.store.decisions.lookup key = some row ∧ Made q.store row

/-- **Every decision of a run has a maker.**  Induction on the run: the last step kept the decision,
or inserted it. -/
theorem madeIn_of_steps {s₀ : AuditStore} (hs₀ : Mediated H s₀) (hnone : s₀.decisions = ∅)
    {p : AuditPool} (hp : (protocol H children).Steps (Protocol.initial s₀) p)
    (hrow : p.store.decisions.lookup key = some row) :
    MadeIn (protocol H children) (Protocol.initial s₀) p key row := by
  induction hp with
  | refl =>
    change s₀.decisions.lookup key = some row at hrow
    rw [hnone] at hrow
    cases hrow
  | @tail q q' hq hstep ih =>
    have hgood := protocol_sound.steps (Protocol.good_initial hs₀) hq
    have hrecords : q'.store = q.store ∨ Records H q.store q'.store := by
      rcases protocol_sound.step_store hgood hstep with heq | ⟨c, -, hg⟩ | henv
      · exact .inl heq
      · exact .inr hg
      · exact .inr henv.records
    have hkept : q.store.decisions.lookup key = some row →
        MadeIn (protocol H children) (Protocol.initial s₀) q' key row := by
      intro hbefore
      obtain ⟨a, b, ha, hab, hb, hmade⟩ := ih hbefore
      exact ⟨a, b, ha, hab, hb.tail hstep, hmade⟩
    rcases hrecords with heq | hrecords
    · rw [heq] at hrow
      exact hkept hrow
    · rcases hrecords.decided key row hrow with hbefore | ⟨hfresh, hmade, -⟩
      · exact hkept hbefore
      · exact ⟨q, q', hq, hstep, .refl, hfresh, hrow, hmade⟩

section Sample

def sampleHex : String := String.ofList (List.replicate 64 'a')

def sampleHashing : Hashing where
  key := EffectIdentity.text
  digest _ := "d"
  bytes _ := 0
  request _ _ := sampleHex

def sampleChildren : ChildServices where
  capture _ _ := .error (.plain .workflowExecutionError "child invocation outcome is unavailable")
  verify _ _ _ _ := false

def sampleOwner : String := String.ofList (List.replicate 32 'b')

def sampleInvocation : InvocationIdentity :=
  ⟨"i", "engine", "reference", none, "session", "workflow", "1", "f", none, none, some "alice"⟩

def samplePolicy : Policy := ⟨true, "default", "1", 1024, [⟨["*"], ["*"], [], [], []⟩]⟩

def sampleAuthority : Authority := ⟨⟨"alice", [], [], []⟩, "static"⟩

def sampleRecord : AuthorityRecord :=
  ⟨⟨sampleInvocation, "definition", "input", some "d"⟩, sampleAuthority, samplePolicy, "d", none⟩

def sampleEffect : EffectIdentity := .firstCall

def sampleLease : ExecutionLease :=
  ⟨"i", "engine", "f", sampleOwner, 1, 10, by decide +kernel, Nat.one_pos, by decide, by decide +kernel⟩

def sampleAuthorityRow : EffectRow :=
  ⟨"execution-authority", .completed, ⟨sampleHex, "execution-authority", .completed,
    .obj [("profile", .str profile), ("authority_digest", .str "d")],
    none, none, none, none, none⟩⟩

/-- An invocation that was admitted with an enabled policy, and has an owner. -/
def sampleAdmitted : AuditStore where
  journal := {
    runtime := {
      owners := ⟨0, (∅ : Table _ _).put "i" ⟨"engine", "f", sampleOwner, 1, 10⟩⟩
      invocations := (∅ : Table _ _).put "i"
        ⟨⟨⟨sampleInvocation, .running, .null, .null⟩, sampleOwner⟩, .running⟩
      inputs := ∅
      terminalTimes := ∅
      history := [] }
    effects := (∅ : Table _ _).put (sampleHashing.key (authorityIdentity sampleEffect))
      sampleAuthorityRow
    effectInvocations := (∅ : Table _ _).put (sampleHashing.key (authorityIdentity sampleEffect))
      (authorityIdentity sampleEffect).indexRow
    childBindings := ∅
    dispatched := [] }
  authorities := (∅ : Table _ _).put "i" ⟨"i", "f", sampleRecord, "d"⟩
  decisions := ∅
  intents := ∅
  outcomes := ∅
  evidence := ⟨fun _ => .ok sampleRecord.original, fun _ => true, fun _ => false, fun _ _ => true⟩

def sampleExecutor : Executor :=
  ⟨samplePolicy, fun _ => some sampleAuthority.principal, none, fun _ => false, fun _ => .ok none⟩

def sampleAuthorize : Call :=
  .authorize ⟨sampleExecutor, sampleInvocation, sampleEffect, "call", "http", sampleHex,
    some sampleLease⟩

def sampleBegin : Call :=
  .beginEffect ⟨sampleExecutor, sampleEffect, sampleHex, "worker", none, some sampleLease⟩

def sampleRun (calls : List Call) : AuditPool :=
  calls.foldl (protocol sampleHashing sampleChildren).ran (Protocol.initial sampleAdmitted)

theorem sampleRun_steps (calls : List Call) :
    (protocol sampleHashing sampleChildren).Steps (Protocol.initial sampleAdmitted)
      (sampleRun calls) := by
  induction calls using List.reverseRecOn with
  | nil => exact .refl
  | append_singleton _ c ih =>
    unfold sampleRun at ih ⊢
    rw [List.foldl_append]
    exact ih.trans (Protocol.steps_ran _ _ c trivial fun _ _ => trivial)

/-- What `get` answers of the sample effect, by status. -/
def sampleStatus (p : AuditPool) : Option ReceiptStatus :=
  match readReceipt sampleHashing sampleChildren sampleEffect p.store with
  | .ok (some receipt) => some receipt.status
  | _ => none

theorem readReceipt_of_sampleStatus {p : AuditPool} {status : ReceiptStatus}
    (h : sampleStatus p = some status) : ∃ receipt,
      readReceipt sampleHashing sampleChildren sampleEffect p.store = .ok (some receipt) ∧
        receipt.status = status := by
  unfold sampleStatus at h
  split at h
  · next receipt hread => exact ⟨receipt, hread, Option.some.inj h⟩
  · cases h

theorem sampleStatus_undecided : sampleStatus (sampleRun [sampleBegin]) = none := by
  decide +kernel

theorem sampleStatus_begun :
    sampleStatus (sampleRun [sampleAuthorize, sampleBegin]) = some .pending := by
  decide +kernel

theorem sampleRun_admitted (calls : List Call) :
    (sampleRun calls).store.authorities.lookup sampleEffect.invocationId =
      some ⟨"i", "f", sampleRecord, "d"⟩ := by
  have hkept := protocol_sound.steps_store (R := AuthoritiesKept) (fun _ _ _ h => h)
    (fun _ _ _ h₁ h₂ i row h => h₂ i row (h₁ i row h)) (fun _ _ _ _ hg => hg.authorities)
    (fun _ _ _ he => he.1) (Protocol.good_initial (mediated_of_empty rfl rfl))
    (sampleRun_steps calls)
  exact hkept _ _ Table.lookup_put_self

end Sample

end Authorizations
