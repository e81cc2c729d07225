/-
# One decision per child wait

Wakers of one wait race with the child's completion, with its deadline and with
restarts of the parent; the children of other parents are reserved and run at the
same time.  What a step does to the waits is said once (`Step.cases`), and `Books`
follows: a wait has left `pending` exactly when its wake receipt stands, and the
receipt's reason has its evidence.

The evidence of `child_terminal` is a dependency on the child's terminal record.  It
keeps verifying because terminal records, inputs, bindings and the limits of budgets
never change, and because `verify_control` accepts every stored binding.

What is relied on: identities have different keys, and the wait receipts are written
by the operations of this file only.
-/
import OpenWorkflowAgent.ChildWaits
import OpenWorkflowAgent.ChildBudgets

open Transaction

/-! ## Terminal records and dependencies -/

namespace ChildInvocationDependency

open Children Invocations

variable {sv : ChildServices} {sha256 : Snapshot → String} {s s' : ChildStore}

/-- Terminal records are there to stay. -/
def Settled (r r' : RuntimeStore) : Prop :=
  ∀ id row, r.invocations.lookup id = some row → row.payload.record.status.terminal = true →
    r'.invocations.lookup id = some row

theorem settled_created {r r' : RuntimeStore} {encoded : Snapshot} (h : Creates encoded r r') :
    Settled r r' := by
  intro id row hrow _
  have hne : id ≠ encoded.invocationId := by
    rintro rfl
    rw [h.absent] at hrow
    cases hrow
  rw [h.invocations, Table.lookup_put_ne hne, hrow]

theorem settled_commits {r r' : RuntimeStore} (h : Commits sha256 r r') : Settled r r' := by
  cases h with
  | untouched hu =>
    intro id row hrow _
    rw [hu.invocations]
    exact hrow
  | created _ hc => exact settled_created hc
  | overwritten _ encoded _ ho =>
    intro id row hrow hterminal
    have hne : id ≠ encoded.invocationId := by
      rintro rfl
      rw [ho.stored, Option.some.injEq] at hrow
      rw [← hrow, ho.active] at hterminal
      cases hterminal
    rw [ho.invocations, Table.lookup_put_ne hne, hrow]

theorem settled_step (h : Children.Step sv sha256 s s') : Settled s.runtime s'.runtime := by
  cases h with
  | reserve _ run =>
    obtain ⟨-, hreserved⟩ := reserve_eq_ok run
    cases hreserved with
    | again => exact fun _ _ h _ => h
    | new _ _ _ _ _ _ _ hnew =>
      obtain ⟨encoded, -, -, -, hcreates, -⟩ := createInTransaction_eq_ok hnew.created
      rw [hnew.store]
      exact settled_created hcreates
  | runtime step => exact settled_commits step.commits

variable {childId : String}

theorem outcome_eq_ok {o : Snapshot × Json} (h : outcome childId s = .ok o) :
    ∃ row, s.runtime.invocations.lookup childId = some row ∧ row.payload = o.1 ∧
      o.1.record.status.terminal = true ∧ readInput o.1.record.identity s.runtime = .ok o.2 := by
  simp only [outcome, except_eq_ok, answer_eq_ok] at h
  obtain ⟨found, ⟨_, hget⟩, child, rfl, hterminal, payload, hpayload, input, hinput, ho⟩ := h
  obtain ⟨-, ⟨-, hnone⟩ | ⟨row, hrow, -, -, hfound⟩⟩ := getInvocation_eq_ok hget
  · cases hnone
  · cases hfound
    cases hpayload
    cases ho
    exact ⟨row, hrow, rfl, by simpa using hterminal, hinput⟩

theorem outcome_persists {o : Snapshot × Json} (h : outcome childId s = .ok o)
    (hsettled : Settled s.runtime s'.runtime) (hgrows : Grows s.runtime s'.runtime)
    (hr : Readable s'.runtime) : outcome childId s' = .ok o := by
  obtain ⟨row, hrow, hpayload, hterminal, hinput⟩ := outcome_eq_ok h
  have hrow' := hsettled childId row hrow (by rw [hpayload]; exact hterminal)
  obtain ⟨hvalid, hrev, hid, hst⟩ := hr childId row hrow'
  have hget := getInvocation_run hrow' hvalid hrev hid hst
  simp only [outcome, except_eq_ok, answer_eq_ok]
  refine ⟨_, ⟨_, hget⟩, _, rfl, ?_, row.payload, rfl, o.2, ?_, ?_⟩
  · show ¬ row.payload.record.status.terminal = false
    rw [hpayload, hterminal]
    decide
  · show readInput row.payload.record.identity s'.runtime = .ok o.2
    rw [hpayload]
    exact readInput_grows hgrows hinput
  · rw [hpayload]
    rfl

theorem provenance_of_books (hb : Books sv s) {key : String} {row : BindingRow}
    (hrow : s.bindings.lookup key = some row) :
    ∃ i, identityOf row.binding.rootId s.runtime = some i ∧
      ∃ budget, s.budgets.lookup row.binding.rootId = some budget ∧
        provenance sv row.binding.childId s = .ok (some (row.binding.key,
          sv.hash "owa/child-binding-dependency/v1"
            (bindingValue row.binding.key row.digest).canonical,
          sv.hash "owa/child-budget-dependency/v1" (budgetValue row.binding.rootId
            (sv.policyDigest row.binding.rootId i.workflowFingerprint budget.maxDepth
              budget.maxChildren)).canonical)) := by
  have hbooks := hb.rows key row hrow
  obtain ⟨p, c, hbound⟩ := hbooks.bound
  obtain ⟨budget, hbudget, -⟩ := hbooks.budget
  obtain ⟨hsound, -, i, hi, hfp, -⟩ := hb.budgets _ budget hbudget
  obtain ⟨child, hverify, hchild⟩ := hb.verifyControl hrow hbound.parent
  obtain ⟨handle, hget, hhandle⟩ := hb.readable.get hbound.parent
  refine ⟨i, hi, budget, hbudget, ?_⟩
  have hof : provenanceOf sv row.binding.childId s row = .ok (row.binding.key,
      sv.hash "owa/child-binding-dependency/v1" (bindingValue row.binding.key row.digest).canonical,
      sv.hash "owa/child-budget-dependency/v1"
        (budgetValue row.binding.rootId budget.policyDigest).canonical) := by
    simp only [provenanceOf, except_eq_ok, answer_eq_ok, effectRequestDigest_eq_ok, not_not]
    exact ⟨row.binding, hb.binding_ok hrow, some handle, ⟨_, hget⟩, handle, rfl, child,
      ⟨s, by rw [hhandle]; exact hverify⟩, hchild, budget, hbudget, _, ⟨rfl, rfl⟩, _, ⟨rfl, rfl⟩,
      rfl⟩
  have hdigest : budget.policyDigest = sv.policyDigest row.binding.rootId i.workflowFingerprint
      budget.maxDepth budget.maxChildren := by
    rw [hfp]
    exact hsound.2.2.2
  unfold provenance
  rw [hb.rowOfChild hrow]
  simp only [hof, hdigest]

theorem provenance_persists (hb : Books sv s) (hb' : Books sv s') (he : Extends s s')
    {p : String × String × String} (h : provenance sv childId s = .ok (some p)) :
    provenance sv childId s' = .ok (some p) := by
  cases hrow : Children.rowOfChild childId s with
  | none =>
    unfold provenance at h
    rw [hrow] at h
    cases h
  | some =>
    obtain ⟨key, hkey, rfl⟩ := rowOfChild_eq_some hrow
    obtain ⟨i, hi, budget, hbudget, hprov⟩ := provenance_of_books hb hkey
    obtain ⟨i', hi', budget', hbudget', hprov'⟩ := provenance_of_books hb' (he.bindings _ _ hkey)
    obtain ⟨budget'', hbudget'', hdepth, hchildren⟩ := he.budgets _ budget hbudget
    have hii : i' = i := by
      have hroot := he.runtime.identity _ _ hi
      rw [hi', Option.some.injEq] at hroot
      exact hroot
    rw [hbudget', Option.some.injEq] at hbudget''
    subst hbudget''
    rw [hprov', hii, hdepth, hchildren, ← hprov, h]

/-- **A dependency that verifies keeps verifying.** -/
theorem verify_persists (hb : Books sv s) (hb' : Books sv s') (he : Extends s s')
    (hsettled : Settled s.runtime s'.runtime) {d : ChildInvocationDependency}
    {identity : EffectIdentity} {requestDigest : String}
    (h : d.verify sv identity requestDigest s = .ok ()) :
    d.verify sv identity requestDigest s' = .ok () := by
  unfold verify at h ⊢
  simp only [except_eq_ok] at h ⊢
  obtain ⟨o, ho, digest, hdigest, request, hrequest, hchecks, hprov⟩ := h
  refine ⟨o, outcome_persists ho hsettled he.runtime hb'.readable, digest, hdigest, request,
    hrequest, hchecks, ?_⟩
  unfold verifyProvenance at hprov ⊢
  cases hd : d.bindingDigest with
  | none => rfl
  | some =>
    simp only [hd, except_eq_ok, not_not] at hprov ⊢
    obtain ⟨p, hp, hsame⟩ := hprov
    cases p with
    | none => cases hsame
    | some p => exact ⟨some p, provenance_persists hb hb' he hp, hsame⟩

end ChildInvocationDependency

namespace ChildWaits

open Children

def IsWait (identity : EffectIdentity) : Prop :=
  identity.operation = awaitOperation ∨ identity.operation = childWakeOperation

section Steps

variable (sv : WaitServices) (sha256 : Snapshot → String)

/-- One committed transaction: an operation of the waits, of the children or of the invocation
store, or another use of the journal. -/
inductive Step (s : WaitStore) : WaitStore → Prop where
  | arm {identity : EffectIdentity} {parent : ExecutionHandle} {childId : String}
      {source : List (String × Json)} {deadlineAt : Option ℚ} {wait : ChildWaitRegistration}
      {s' : WaitStore}
      (run : (arm sv identity parent childId source deadlineAt).run s = .ok (wait, s')) : Step s s'
  | wake {wait : ChildWaitRegistration} {parent : ExecutionHandle} {now : ℚ}
      {reason : Option WaitReason} {s' : WaitStore}
      (run : (wake sv wait parent now).run s = .ok (reason, s')) : Step s s'
  | consume {wait : ChildWaitRegistration} {parent : ExecutionHandle} {s' : WaitStore}
      (run : (consume sv wait parent).run s = .ok ((), s')) : Step s s'
  | children {children : ChildStore}
      (step : Children.Step sv.children sha256 s.children children) :
      Step s { s with children := children }
  | insert {identity : EffectIdentity} {receipt : EffectReceipt} (other : ¬ IsWait identity) :
      Step s { s with
        effects := s.effects.insertNew (sv.children.key identity) receipt.row
        effectInvocations :=
          s.effectInvocations.insertNew (sv.children.key identity) identity.indexRow }
  | resolve {identity : EffectIdentity} {owner : String} {receipt : EffectReceipt}
      (other : ¬ IsWait identity) :
      Step s { s with
        effects := s.effects.updateWhere (sv.children.key identity)
          (fun row => row.owner = owner ∧ row.status = .pending)
          (fun row => { row with
            status := receipt.status
            payload := receipt.toReceiptFields }) }

abbrev Steps : WaitStore → WaitStore → Prop := Relation.ReflTransGen (Step sv sha256)

/-- A database before its first reservation and its first wait. -/
structure Initial (s : WaitStore) : Prop where
  children : Children.Initial s.children
  waits : s.waits = ∅

end Steps

/-! ## What an operation commits -/

variable {receipt : EffectReceipt} {key : String} {known wait : ChildWaitRegistration}
  {parent : ExecutionHandle} {reason : WaitReason} {answer : Option WaitReason}
  {identity : EffectIdentity}

section Inversion

variable {sv : WaitServices} {s s' : WaitStore}

theorem readReceipt_eq_none (h : readReceipt sv identity s = .ok none) :
    s.effects.lookup (sv.children.key identity) = none := by
  unfold readReceipt at h
  split at h
  · assumption
  · split at h <;> cases h

theorem readReceipt_eq_some (h : readReceipt sv identity s = .ok (some receipt)) :
    s.effects.lookup (sv.children.key identity) = some receipt.row := by
  unfold readReceipt at h
  split at h
  · cases h
  · next row hrow =>
      split at h
      · next r hr =>
          cases h
          simp only [decodeReceipt, except_eq_ok, not_or, not_not] at hr
          obtain ⟨r, hmake, ⟨howner, hstatus, -⟩, hreceipt⟩ := hr
          cases hreceipt
          rw [hrow, Option.some.injEq]
          cases row
          simp only [EffectReceipt.row, EffectRow.mk.injEq]
          exact ⟨howner.symm, hstatus.symm, (EffectReceipt.make_eq_ok hmake).symm⟩
      · cases h

/-- What `_registration` found for a key. -/
structure Found (sv : WaitServices) (s : WaitStore) (key : String) (row : WaitRow)
    (known : ChildWaitRegistration) : Prop where
  stored : s.waits.lookup key = some row
  key_eq : sv.children.key row.payload.suspension.identity = key
  identity : known.identity = row.payload.suspension.identity
  suspension : known.suspension = row.payload.suspension
  wake : ∃ found, readReceipt sv (wakeIdentity row.payload.suspension.identity) s = .ok found ∧
    ((row.state ≠ .pending) = (found ≠ none))

theorem registrationForKey_eq_some (h : registrationForKey sv key s = .ok (some known)) :
    ∃ row, Found sv s key row known := by
  unfold registrationForKey at h
  split at h
  · cases h
  · next row hrow =>
      split at h
      · next r hr =>
          cases h
          simp only [decodeWait, except_eq_ok, not_not] at hr
          obtain ⟨digest, -, hagrees, found, -, receipt, -, -, wake, hwake, hstate, -, _, -,
            hknown⟩ := hr
          cases hknown
          exact ⟨row, hrow, hagrees.1, rfl, rfl, wake, hwake, hstate⟩
      · cases h

theorem registrationForKey_eq_none (h : registrationForKey sv key s = .ok none) :
    s.waits.lookup key = none := by
  unfold registrationForKey at h
  split at h
  · assumption
  · split at h <;> cases h

theorem registration_eq_ok {found : Option ChildWaitRegistration}
    (h : (registration sv identity).run s = .ok (found, s')) :
    s = s' ∧ identity.operation = "run:workflow" ∧
      registrationForKey sv (sv.children.key identity) s = .ok found := by
  simp only [registration, run_eq_ok, not_not] at h
  obtain ⟨hop, hread, rfl⟩ := h
  exact ⟨rfl, hop, hread⟩

theorem ownedBy_eq_ok {α : Type} {body : Transaction OwaError WaitStore α} {r : α × WaitStore}
    (h : (ownedBy identity parent body).run s = .ok r) : body.run s = .ok r := by
  simp only [ownedBy, run_eq_ok, Ownership.ownedWriteTransaction_eq_ok] at h
  obtain ⟨-, -, hbody⟩ := h
  exact hbody

theorem onJournal_eq_ok {u : Unit}
    (h : (onJournal (EffectJournal.insertCompletedReceipt sv.journal identity receipt)).run s =
      .ok (u, s')) : s' = { s with
      effects := s.effects.insertNew (sv.children.key identity) receipt.row
      effectInvocations :=
        s.effectInvocations.insertNew (sv.children.key identity) identity.indexRow } := by
  unfold onJournal at h
  rw [zoom_eq_ok] at h
  obtain ⟨x, hinsert, rfl⟩ := h
  obtain ⟨-, rfl, -⟩ := EffectJournal.insertCompletedReceipt_eq_ok hinsert
  rw [← sv.same_key]
  rfl

/-- A committed new admission. -/
structure Arms (sv : WaitServices) (s : WaitStore) (identity : EffectIdentity) (row : WaitRow)
    (receipt : EffectReceipt) (s' : WaitStore) : Prop where
  absent : s.waits.lookup (sv.children.key identity) = none
  pending : row.state = .pending
  key_eq : sv.children.key row.payload.suspension.identity = sv.children.key identity
  store : s' =
    { children := s.children
      effects := s.effects.insertNew (sv.children.key (awaitIdentity identity)) receipt.row
      effectInvocations := s.effectInvocations.insertNew (sv.children.key (awaitIdentity identity))
        (awaitIdentity identity).indexRow
      waits := s.waits.put (sv.children.key identity) row }
  found : ∃ known, Found sv s' (sv.children.key identity) row known

theorem arm_eq_ok {childId : String} {source : List (String × Json)} {deadlineAt : Option ℚ}
    (h : (arm sv identity parent childId source deadlineAt).run s = .ok (wait, s')) :
    s' = s ∨ ∃ row receipt, Arms sv s identity row receipt s' := by
  have hbody := ownedBy_eq_ok h
  simp only [run_eq_ok] at hbody
  obtain ⟨brow, -, suspension, -, digest, -, -, existing, _, hexisting, hfound⟩ := hbody
  obtain ⟨rfl, -, hread⟩ := registration_eq_ok hexisting
  cases existing with
  | some =>
    simp only [armFound, run_eq_ok] at hfound
    obtain ⟨-, -, rfl⟩ := hfound
    exact Or.inl rfl
  | none =>
    simp only [armFound, armNew, run_eq_ok] at hfound
    obtain ⟨_, -, -, receipt, -, s₁, hinsert, recorded, s₂, hrecorded, hsome, rfl⟩ := hfound
    have hs₁ := onJournal_eq_ok hinsert
    obtain ⟨rfl, -, hregistered⟩ := registration_eq_ok hrecorded
    subst hsome
    obtain ⟨row, hrow⟩ := registrationForKey_eq_some hregistered
    have hlook : s₁.waits.lookup (sv.children.key identity) =
        some (newRow parent.record.identity ⟨suspension, source⟩ digest) := by
      rw [hs₁]
      exact Table.lookup_put_self
    have hsame : row = newRow parent.record.identity ⟨suspension, source⟩ digest := by
      have hr := hrow.stored
      rw [hlook, Option.some.injEq] at hr
      exact hr.symm
    refine Or.inr ⟨row, receipt, registrationForKey_eq_none hread, by rw [hsame]; rfl,
      hrow.key_eq, ?_, wait, hrow⟩
    rw [hs₁, hsame]

end Inversion

/-! ## Reasons and their evidence -/

section Reasons

variable {sv : WaitServices} {s s' : WaitStore}

def recordedReason (output : Json) : Option WaitReason :=
  (Arming.readText "reason" output).bind WaitReason.ofText

theorem readWake_eq_some {suspension : ChildSuspension} {output : Json}
    (h : readWake key suspension output = some reason) : recordedReason output = some reason := by
  unfold readWake at h
  split at h
  · exact h
  · cases h

/-- The evidence of a reason: a dependency on the awaited child that verifies, or a deadline. -/
inductive Evidence (sv : WaitServices) (suspension : ChildSuspension) (receipt : EffectReceipt)
    (s : ChildStore) : WaitReason → Prop
  | childTerminal (d : ChildInvocationDependency) (dependency : receipt.childInvocation = some d)
      (awaited : d.invocationId = suspension.childId)
      (verifies : d.verify sv.children suspension.identity suspension.requestDigest s = .ok ()) :
      Evidence sv suspension receipt s .childTerminal
  | deadline (d : ℚ) (due : suspension.deadlineAt = some d)
      (alone : receipt.childInvocation = none) : Evidence sv suspension receipt s .deadline

variable {c : ChildStore}

theorem verifyReason_eq_ok (hid : known.identity = known.suspension.identity)
    (h : verifyReason sv known receipt c reason = .ok ()) :
    Evidence sv known.suspension receipt c reason := by
  cases reason with
  | childTerminal =>
    simp only [verifyReason, except_eq_ok, not_not, hid] at h
    obtain ⟨d, hd, hawaited, hverify⟩ := h
    exact .childTerminal d hd hawaited hverify
  | deadline =>
    simp only [verifyReason, except_raiseIf_eq_ok, not_or, not_not] at h
    obtain ⟨hdeadline, halone⟩ := h
    obtain ⟨d, hd⟩ := Option.ne_none_iff_exists'.mp hdeadline
    exact .deadline d hd halone

/-- What `_wake_value` accepts. -/
structure Decided (sv : WaitServices) (suspension : ChildSuspension) (receipt : EffectReceipt)
    (s : ChildStore) (reason : WaitReason) : Prop where
  reads : recordedReason receipt.output = some reason
  completed : receipt.status = .completed
  evidence : Evidence sv suspension receipt s reason

theorem wakeValue_eq_ok (hid : known.identity = known.suspension.identity)
    (h : wakeValue sv known receipt c = .ok reason) :
    Decided sv known.suspension receipt c reason := by
  simp only [wakeValue, except_eq_ok, not_or, not_not] at h
  obtain ⟨r, hread, digest, -, ⟨hstatus, -⟩, hverify, hr⟩ := h
  cases hr
  exact ⟨readWake_eq_some hread, hstatus, verifyReason_eq_ok hid hverify⟩

theorem Decided.persists {sha256 : Snapshot → String} {suspension : ChildSuspension}
    {c' : ChildStore} (h : Decided sv suspension receipt c reason)
    (hb : Children.Books sv.children c) (hb' : Children.Books sv.children c')
    (step : Children.Step sv.children sha256 c c') :
    Decided sv suspension receipt c' reason := by
  refine ⟨h.reads, h.completed, ?_⟩
  cases h.evidence with
  | childTerminal d hd hawaited hverify =>
    have hsettled := ChildInvocationDependency.settled_step step
    exact .childTerminal d hd hawaited
      (ChildInvocationDependency.verify_persists hb hb' step.extends hsettled hverify)
  | deadline d hdue halone => exact .deadline d hdue halone

/-- Why a wake may be recorded at a time. -/
inductive Due (s : ChildStore) (suspension : ChildSuspension) (now : ℚ) : WaitReason → Prop
  | childTerminal (row : InvocationRow)
      (stored : s.runtime.invocations.lookup suspension.childId = some row)
      (terminal : row.status.terminal = true) : Due s suspension now .childTerminal
  | deadline (d : ℚ) (armed : suspension.deadlineAt = some d) (past : d ≤ now) :
      Due s suspension now .deadline

theorem dueReason_eq_some {now : ℚ} {child : ExecutionHandle}
    (hchild : (Invocations.getInvocation known.suspension.childId).answer c.runtime =
      .ok (some child)) (h : dueReason known child.record now = some reason) :
    Due c known.suspension now reason := by
  rw [answer_eq_ok] at hchild
  obtain ⟨_, hget⟩ := hchild
  obtain ⟨-, ⟨-, hnone⟩ | ⟨row, hrow, -, hstatus, hfound⟩⟩ := Invocations.getInvocation_eq_ok hget
  · cases hnone
  · cases hfound
    unfold dueReason at h
    split at h
    · next hterminal =>
        cases h
        exact .childTerminal row hrow (by rw [← hstatus]; exact hterminal)
    · split at h
      · next hdeadline =>
          cases h
          obtain ⟨d, hd, hle⟩ := option_any_eq_true.mp hdeadline
          exact .deadline d hd (of_decide_eq_true hle)
      · cases h

end Reasons

/-! ## Wakes and consumptions -/

section Wakes

variable {sv : WaitServices} {s s' : WaitStore}

/-- The store after a wake was recorded. -/
def wokenStore (sv : WaitServices) (s : WaitStore) (identity : EffectIdentity)
    (receipt : EffectReceipt) : WaitStore :=
  wakeRow (sv.children.key identity)
    { s with
      effects := s.effects.insertNew (sv.children.key (wakeIdentity identity)) receipt.row
      effectInvocations := s.effectInvocations.insertNew (sv.children.key (wakeIdentity identity))
        (wakeIdentity identity).indexRow }

/-- What a committed wake answered and did. -/
inductive Woken (sv : WaitServices) (s : WaitStore) (identity : EffectIdentity)
    (suspension : ChildSuspension) (now : ℚ) : Option WaitReason → WaitStore → Prop
  | again (receipt : EffectReceipt) (reason : WaitReason)
      (stored : s.effects.lookup (sv.children.key (wakeIdentity identity)) = some receipt.row)
      (decided : Decided sv suspension receipt s.children reason) :
      Woken sv s identity suspension now (some reason) s
  | early (absent : s.effects.lookup (sv.children.key (wakeIdentity identity)) = none) :
      Woken sv s identity suspension now none s
  | recorded (receipt : EffectReceipt) (reason : WaitReason)
      (absent : s.effects.lookup (sv.children.key (wakeIdentity identity)) = none)
      (due : Due s.children suspension now reason)
      (decided : Decided sv suspension receipt s.children reason) :
      Woken sv s identity suspension now (some reason) (wokenStore sv s identity receipt)

theorem recordWake_eq_ok (hid : known.identity = known.suspension.identity)
    (h : (recordWake sv known reason).run s = .ok (answer, s')) :
    ∃ receipt, answer = some reason ∧ s' = wokenStore sv s known.identity receipt ∧
      Decided sv known.suspension receipt s.children reason := by
  simp only [recordWake, run_eq_ok] at h
  obtain ⟨digest, -, dependency, -, receipt, hreceipt, s₁, hinsert, r, hvalue, rfl, rfl⟩ := h
  have hs₁ := onJournal_eq_ok hinsert
  have hchildren : (wakeRow (sv.children.key known.identity) s₁).children = s.children := by
    rw [hs₁]
    rfl
  have hdecided := wakeValue_eq_ok hid hvalue
  rw [hchildren] at hdecided
  have hreads : recordedReason receipt.output = some reason := by
    have hfields := EffectReceipt.make_eq_ok hreceipt
    have hout : receipt.output =
        wakeOutput (sv.children.key known.identity) known.suspension reason := by
      rw [hfields]
      rfl
    rw [hout]
    exact readWake_eq_some (readWake_wakeOutput _ _ _)
  have hr : r = reason := by
    have hsame := hdecided.reads
    rw [hreads, Option.some.injEq] at hsame
    exact hsame.symm
  subst hr
  exact ⟨receipt, rfl, by rw [hs₁]; rfl, hdecided⟩

theorem Found.identity_eq (hkey : Function.Injective sv.children.key) {row : WaitRow}
    (h : Found sv s (sv.children.key identity) row known) :
    known.identity = identity ∧ known.identity = known.suspension.identity := by
  refine ⟨?_, ?_⟩
  · rw [h.identity]
    exact hkey h.key_eq
  · rw [h.identity, h.suspension]

theorem wake_eq_ok (hkey : Function.Injective sv.children.key) {now : ℚ}
    (h : (wake sv wait parent now).run s = .ok (answer, s')) :
    ∃ row known, Found sv s (sv.children.key wait.identity) row known ∧
      Woken sv s wait.identity row.payload.suspension now answer s' := by
  simp only [wake, run_eq_ok] at h
  obtain ⟨-, hrun⟩ := h
  have hbody := ownedBy_eq_ok hrun
  simp only [run_eq_ok] at hbody
  obtain ⟨found, _, hfound, known, rfl, -, existing, hexisting, hwake⟩ := hbody
  obtain ⟨rfl, -, hread⟩ := registration_eq_ok hfound
  obtain ⟨row, hrow⟩ := registrationForKey_eq_some hread
  obtain ⟨hidentity, hself⟩ := hrow.identity_eq hkey
  refine ⟨row, known, hrow, ?_⟩
  rw [← hrow.suspension, ← hidentity]
  rw [← hidentity] at hexisting
  cases existing with
  | some receipt =>
    simp only [wakeFound, run_eq_ok] at hwake
    obtain ⟨reason, hvalue, rfl, rfl⟩ := hwake
    exact .again receipt reason (readReceipt_eq_some hexisting) (wakeValue_eq_ok hself hvalue)
  | none =>
    have habsent := readReceipt_eq_none hexisting
    simp only [wakeFound, run_eq_ok] at hwake
    obtain ⟨found, hget, child, rfl, hdue⟩ := hwake
    cases hreason : dueReason known child.record now with
    | none =>
      rw [hreason] at hdue
      obtain ⟨rfl, rfl⟩ := pure_eq_ok.mp hdue
      exact .early habsent
    | some reason =>
      rw [hreason] at hdue
      obtain ⟨receipt, rfl, rfl, hdecided⟩ := recordWake_eq_ok hself hdue
      exact .recorded receipt reason habsent (dueReason_eq_some hget hreason) hdecided

theorem consume_eq_ok {u : Unit} (h : (consume sv wait parent).run s = .ok (u, s')) :
    ∃ row known, Found sv s (sv.children.key wait.identity) row known ∧
      s.effects.lookup (sv.children.key (wakeIdentity wait.identity)) ≠ none ∧
      s' = { s with
        waits := s.waits.updateWhere (sv.children.key wait.identity) (fun _ => true)
          (fun row => { row with state := .consumed }) } := by
  have hbody := ownedBy_eq_ok h
  simp only [run_eq_ok] at hbody
  obtain ⟨found, _, hfound, _, hreceipt, known, rfl, -, receipt, rfl, -, -, rfl⟩ := hbody
  obtain ⟨rfl, -, hread⟩ := registration_eq_ok hfound
  obtain ⟨row, hrow⟩ := registrationForKey_eq_some hread
  refine ⟨row, known, hrow, ?_, rfl⟩
  rw [readReceipt_eq_some hreceipt]
  exact Option.some_ne_none _

end Wakes

/-! ## What a step does -/

section Changes

variable (sv : WaitServices) (sha256 : Snapshot → String)

/-- What a step does to the waits and their receipts. -/
inductive Change (s : WaitStore) : WaitStore → Prop where
  | same : Change s s
  | armed (identity : EffectIdentity) (row : WaitRow) (receipt : EffectReceipt) {s' : WaitStore}
      (arms : Arms sv s identity row receipt s') : Change s s'
  | woken (wait : ChildWaitRegistration) (parent : ExecutionHandle) (now : ℚ) (reason : WaitReason)
      (row : WaitRow) (known : ChildWaitRegistration) (receipt : EffectReceipt)
      (run : (wake sv wait parent now).run s =
        .ok (some reason, wokenStore sv s wait.identity receipt))
      (found : Found sv s (sv.children.key wait.identity) row known)
      (absent : s.effects.lookup (sv.children.key (wakeIdentity wait.identity)) = none)
      (due : Due s.children row.payload.suspension now reason)
      (decided : Decided sv row.payload.suspension receipt s.children reason) :
      Change s (wokenStore sv s wait.identity receipt)
  | consumed (identity : EffectIdentity) (row : WaitRow) (known : ChildWaitRegistration)
      (found : Found sv s (sv.children.key identity) row known)
      (present : s.effects.lookup (sv.children.key (wakeIdentity identity)) ≠ none) :
      Change s { s with
        waits := s.waits.updateWhere (sv.children.key identity) (fun _ => true)
          (fun row => { row with state := .consumed }) }
  | children (children : ChildStore)
      (step : Children.Step sv.children sha256 s.children children) :
      Change s { s with children := children }
  | effects (identity : EffectIdentity) (effects : Table String EffectRow)
      (index : Table String EffectIndexRow) (other : ¬ IsWait identity)
      (frame : ∀ key, key ≠ sv.children.key identity → effects.lookup key = s.effects.lookup key) :
      Change s { s with
        effects := effects
        effectInvocations := index }

variable {sv sha256} {s s' : WaitStore}

theorem Step.cases (hkey : Function.Injective sv.children.key) (h : Step sv sha256 s s') :
    Change sv sha256 s s' := by
  cases h with
  | arm run =>
    obtain rfl | ⟨row, receipt, harms⟩ := arm_eq_ok run
    · exact .same
    · exact .armed _ row receipt harms
  | wake run =>
    obtain ⟨row, known, hfound, hwoken⟩ := wake_eq_ok hkey run
    cases hwoken with
    | again => exact .same
    | early => exact .same
    | recorded receipt reason habsent hdue hdecided =>
      exact .woken _ _ _ reason row known receipt run hfound habsent hdue hdecided
  | consume run =>
    obtain ⟨row, known, hfound, hpresent, rfl⟩ := consume_eq_ok run
    exact .consumed _ row known hfound hpresent
  | children step => exact .children _ step
  | insert other => exact .effects _ _ _ other fun _ hne => Table.lookup_insertNew_ne hne
  | resolve other => exact .effects _ _ _ other fun _ hne => Table.lookup_updateWhere_ne hne

end Changes

/-! ## Identities of waits -/

theorem wakeIdentity_isWait (identity : EffectIdentity) : IsWait (wakeIdentity identity) :=
  Or.inr rfl

theorem wakeIdentity_ne_awaitIdentity (identity other : EffectIdentity) :
    wakeIdentity identity ≠ awaitIdentity other := by
  intro h
  have hoperation : childWakeOperation = awaitOperation := congrArg EffectIdentity.operation h
  exact absurd hoperation (by decide)

theorem wakeIdentity_inj {other : EffectIdentity} (hruns : identity.operation = "run:workflow")
    (hruns' : other.operation = "run:workflow") (h : wakeIdentity identity = wakeIdentity other) :
    identity = other := by
  cases identity
  cases other
  simp only [wakeIdentity, withOperation, EffectIdentity.withOperation,
    EffectIdentity.mk.injEq] at h
  simp only at hruns hruns'
  simp only [EffectIdentity.mk.injEq]
  grind

/-! ## The books of the waits -/

section Books

variable {sv : WaitServices} {sha256 : Snapshot → String} {s s' : WaitStore}

abbrev wakeKey (sv : WaitServices) (row : WaitRow) : String :=
  sv.children.key (wakeIdentity row.payload.suspension.identity)

/-- What the tables hold about one wait. -/
structure WaitBooks (sv : WaitServices) (s : WaitStore) (key : String) (row : WaitRow) : Prop where
  key_eq : sv.children.key row.payload.suspension.identity = key
  pending : row.state = .pending → s.effects.lookup (wakeKey sv row) = none
  left : row.state ≠ .pending → ∃ receipt reason,
    s.effects.lookup (wakeKey sv row) = some receipt.row ∧
      Decided sv row.payload.suspension receipt s.children reason

/-- What the tables hold. -/
structure Books (sv : WaitServices) (s : WaitStore) : Prop where
  children : Children.Books sv.children s.children
  rows : ∀ key row, s.waits.lookup key = some row → WaitBooks sv s key row

theorem Initial.books (h : Initial s) : Books sv s where
  children := h.children.books
  rows := by
    intro key row hrow
    rw [h.waits] at hrow
    cases hrow

variable {row : WaitRow}

/-- The books of a row depend on its wake receipt and on the tables of children only. -/
theorem WaitBooks.frame (h : WaitBooks sv s key row)
    (heffects : s'.effects.lookup (wakeKey sv row) = s.effects.lookup (wakeKey sv row))
    (hchildren : s'.children = s.children) : WaitBooks sv s' key row where
  key_eq := h.key_eq
  pending := by
    intro hpending
    rw [heffects]
    exact h.pending hpending
  left := by
    intro hleft
    rw [heffects, hchildren]
    exact h.left hleft

section

variable (hkey : Function.Injective sv.children.key)

include hkey

theorem wakeKey_ne (hruns : identity.operation = "run:workflow")
    (hrow : sv.children.key row.payload.suspension.identity = key)
    (hne : key ≠ sv.children.key identity) :
    wakeKey sv row ≠ sv.children.key (wakeIdentity identity) := by
  intro h
  have hsame := wakeIdentity_inj row.payload.suspension.runs hruns (hkey h)
  rw [← hrow, hsame] at hne
  exact hne rfl

theorem Arms.books (hb : Books sv s) (h : Arms sv s identity row receipt s') :
    Books sv s' where
  children := by
    rw [h.store]
    exact hb.children
  rows := by
    intro key r hr
    by_cases hk : key = sv.children.key identity
    · -- The admission was read again, so its wake receipt is absent.
      subst hk
      obtain ⟨known, hfound⟩ := h.found
      obtain rfl : r = row := by
        have hstored := hfound.stored
        rw [hr, Option.some.injEq] at hstored
        exact hstored
      obtain ⟨wake, hwake, hstate⟩ := hfound.wake
      have hnone : wake = none := by
        by_contra hsome
        exact hstate.mpr hsome h.pending
      subst hnone
      exact ⟨hfound.key_eq, fun _ => readReceipt_eq_none hwake, fun hleft => absurd h.pending hleft⟩
    · have hold : s.waits.lookup key = some r := by
        rw [h.store] at hr
        exact (Table.lookup_put_ne hk).symm.trans hr
      have hframe : s'.effects.lookup (wakeKey sv r) = s.effects.lookup (wakeKey sv r) := by
        rw [h.store]
        exact Table.lookup_insertNew_ne
          (fun heq => wakeIdentity_ne_awaitIdentity _ _ (hkey heq))
      exact (hb.rows key r hold).frame hframe (by rw [h.store])

theorem Found.runs (h : Found sv s (sv.children.key identity) row known) :
    row.payload.suspension.identity = identity ∧ identity.operation = "run:workflow" := by
  have hidentity := hkey h.key_eq
  refine ⟨hidentity, ?_⟩
  rw [← hidentity]
  exact row.payload.suspension.runs

theorem woken_books (hb : Books sv s) (hfound : Found sv s (sv.children.key identity) row known)
    (habsent : s.effects.lookup (sv.children.key (wakeIdentity identity)) = none)
    (hdecided : Decided sv row.payload.suspension receipt s.children reason) :
    Books sv (wokenStore sv s identity receipt) where
  children := hb.children
  rows := by
    obtain ⟨hidentity, hruns⟩ := hfound.runs hkey
    intro key r hr
    by_cases hk : key = sv.children.key identity
    · subst hk
      have hpending : row.state = .pending := by
        by_contra hleft
        obtain ⟨_, _, hstored, -⟩ := (hb.rows _ row hfound.stored).left hleft
        rw [wakeKey, hidentity, habsent] at hstored
        cases hstored
      have hr' : r = { row with state := .woken } := by
        have hlook := Table.lookup_updateWhere_self (t := s.waits)
          (k := sv.children.key identity) (p := fun row => decide (row.state = .pending))
          (f := fun row => { row with state := WaitState.woken })
        rw [hfound.stored] at hlook
        simp only [Option.map_some, hpending, decide_true, if_true] at hlook
        exact Option.some.inj (hr.symm.trans hlook)
      subst hr'
      refine ⟨hfound.key_eq, fun h => (by cases h), fun _ => ⟨receipt, reason, ?_, hdecided⟩⟩
      rw [wakeKey, hidentity]
      exact Table.lookup_insertNew_self_of_none habsent
    · have hold : s.waits.lookup key = some r := (Table.lookup_updateWhere_ne hk).symm.trans hr
      have hbooks := hb.rows key r hold
      exact hbooks.frame (Table.lookup_insertNew_ne (wakeKey_ne hkey hruns hbooks.key_eq hk)) rfl

theorem consumed_books (hb : Books sv s) (hfound : Found sv s (sv.children.key identity) row known)
    (hpresent : s.effects.lookup (sv.children.key (wakeIdentity identity)) ≠ none) :
    Books sv { s with
      waits := s.waits.updateWhere (sv.children.key identity) (fun _ => true)
        (fun row => { row with state := .consumed }) } where
  children := hb.children
  rows := by
    intro key r hr
    by_cases hk : key = sv.children.key identity
    · subst hk
      have hr' : r = { row with state := .consumed } := by
        have hlook := Table.lookup_updateWhere_self (t := s.waits)
          (k := sv.children.key identity) (p := fun _ => true)
          (f := fun row => { row with state := WaitState.consumed })
        rw [hfound.stored] at hlook
        exact Option.some.inj (hr.symm.trans hlook)
      have hbooks := hb.rows _ row hfound.stored
      have hleft : row.state ≠ .pending := by
        intro hpending
        have hnone := hbooks.pending hpending
        rw [wakeKey, (hfound.runs hkey).1] at hnone
        exact hpresent hnone
      subst hr'
      exact ⟨hbooks.key_eq, fun h => (by cases h), fun _ => hbooks.left hleft⟩
    · have hold : s.waits.lookup key = some r := (Table.lookup_updateWhere_ne hk).symm.trans hr
      exact (hb.rows key r hold).frame rfl rfl

theorem Change.books (hnonempty : ∀ identity, sv.children.key identity ≠ "")
    (h : Change sv sha256 s s') (hb : Books sv s) : Books sv s' := by
  cases h with
  | same => exact hb
  | armed _ _ _ harms => exact harms.books hkey hb
  | woken _ _ _ _ _ _ _ _ hfound habsent _ hdecided =>
    exact woken_books hkey hb hfound habsent hdecided
  | consumed _ _ _ hfound hpresent => exact consumed_books hkey hb hfound hpresent
  | children _ step =>
    have hchildren := step.books hnonempty hb.children
    refine ⟨hchildren, fun key row hrow => ?_⟩
    have hbooks := hb.rows key row hrow
    refine ⟨hbooks.key_eq, hbooks.pending, fun hleft => ?_⟩
    obtain ⟨receipt, reason, hstored, hdecided⟩ := hbooks.left hleft
    exact ⟨receipt, reason, hstored, hdecided.persists hb.children hchildren step⟩
  | effects _ _ _ hother hframe =>
    refine ⟨hb.children, fun key row hrow => (hb.rows key row hrow).frame (hframe _ ?_) rfl⟩
    intro heq
    exact hother (hkey heq ▸ wakeIdentity_isWait _)

theorem Change.keeps (h : Change sv sha256 s s') {row : EffectRow}
    (hrow : s.effects.lookup (sv.children.key (wakeIdentity identity)) = some row) :
    s'.effects.lookup (sv.children.key (wakeIdentity identity)) = some row := by
  cases h with
  | same => exact hrow
  | armed _ _ _ harms =>
    rw [harms.store]
    exact Table.lookup_insertNew_of_some hrow
  | woken => exact Table.lookup_insertNew_of_some hrow
  | consumed => exact hrow
  | children => exact hrow
  | effects _ _ _ hother hframe =>
    refine (hframe _ ?_).trans hrow
    intro heq
    exact hother (hkey heq ▸ wakeIdentity_isWait _)

end

end Books

/-! ## Every run -/

section Runs

variable {sv : WaitServices} {sha256 : Snapshot → String} {s s' : WaitStore}

/-- How far a wait has come. -/
def progress : WaitState → ℕ
  | .pending => 0
  | .woken => 1
  | .consumed => 2

/-- The row of a wait later on: its admission is the same, its state is the same or the next. -/
structure Moves (row row' : WaitRow) : Prop where
  payload : row'.payload = row.payload
  forward : progress row.state ≤ progress row'.state
  stepwise : progress row'.state ≤ progress row.state + 1

theorem Moves.refl (row : WaitRow) : Moves row row := ⟨rfl, le_rfl, Nat.le_succ _⟩

section

variable (hkey : Function.Injective sv.children.key)

include hkey

theorem Change.moves (hb : Books sv s) (h : Change sv sha256 s s') {row : WaitRow}
    (hrow : s.waits.lookup key = some row) :
    ∃ row', s'.waits.lookup key = some row' ∧ Moves row row' := by
  cases h with
  | same => exact ⟨row, hrow, .refl row⟩
  | armed identity _ _ harms =>
    have hne : key ≠ sv.children.key identity := by
      rintro rfl
      rw [harms.absent] at hrow
      cases hrow
    refine ⟨row, ?_, .refl row⟩
    rw [harms.store]
    exact (Table.lookup_put_ne hne).trans hrow
  | woken wait =>
    by_cases hk : key = sv.children.key wait.identity
    · subst hk
      refine ⟨_, Table.lookup_updateWhere_self.trans (by rw [hrow]; rfl), ?_⟩
      by_cases hpending : row.state = .pending
      · simp only [hpending, decide_true, if_true]
        exact ⟨rfl, Nat.zero_le _ |>.trans_eq' (by rw [hpending]; rfl), by rw [hpending]; rfl⟩
      · simp only [hpending, decide_false, Bool.false_eq_true, if_false]
        exact .refl row
    · exact ⟨row, (Table.lookup_updateWhere_ne hk).trans hrow, .refl row⟩
  | consumed identity r _ hfound hpresent =>
    by_cases hk : key = sv.children.key identity
    · subst hk
      refine ⟨{ row with state := .consumed },
        Table.lookup_updateWhere_self.trans (by rw [hrow]; rfl), rfl, ?_, ?_⟩
      · show progress row.state ≤ 2
        cases row.state <;> decide
      · -- A pending wait has no wake receipt, so it is not consumed.
        have hleft : row.state ≠ .pending := by
          intro hpending
          have hnone := (hb.rows _ row hrow).pending hpending
          obtain rfl : row = r := Option.some.inj (hrow.symm.trans hfound.stored)
          rw [wakeKey, (hfound.runs hkey).1] at hnone
          exact hpresent hnone
        show 2 ≤ progress row.state + 1
        revert hleft
        cases row.state <;> decide
    · exact ⟨row, (Table.lookup_updateWhere_ne hk).trans hrow, .refl row⟩
  | children => exact ⟨row, hrow, .refl row⟩
  | effects => exact ⟨row, hrow, .refl row⟩

theorem Steps.books (hnonempty : ∀ identity, sv.children.key identity ≠ "")
    (h : Steps sv sha256 s s') (hb : Books sv s) : Books sv s' := by
  induction h with
  | refl => exact hb
  | tail _ step ih => exact (step.cases hkey).books hkey hnonempty ih

theorem Steps.keeps (h : Steps sv sha256 s s') {row : EffectRow}
    (hrow : s.effects.lookup (sv.children.key (wakeIdentity identity)) = some row) :
    s'.effects.lookup (sv.children.key (wakeIdentity identity)) = some row := by
  induction h with
  | refl => exact hrow
  | tail _ step ih => exact (step.cases hkey).keeps hkey ih

theorem wake_recorded {now : ℚ} (h : (wake sv wait parent now).run s = .ok (some reason, s')) :
    ∃ receipt, s'.effects.lookup (sv.children.key (wakeIdentity wait.identity)) =
        some (EffectReceipt.row receipt) ∧ recordedReason receipt.output = some reason := by
  obtain ⟨row, known, hfound, hwoken⟩ := wake_eq_ok hkey h
  cases hwoken with
  | again receipt _ hstored hdecided => exact ⟨receipt, hstored, hdecided.reads⟩
  | recorded receipt _ habsent _ hdecided =>
    exact ⟨receipt, Table.lookup_insertNew_self_of_none habsent, hdecided.reads⟩

theorem wake_reads {now : ℚ}
    (hstored : s.effects.lookup (sv.children.key (wakeIdentity wait.identity)) =
      some (EffectReceipt.row receipt)) (h : (wake sv wait parent now).run s = .ok (answer, s')) :
    answer = recordedReason receipt.output := by
  obtain ⟨row, known, hfound, hwoken⟩ := wake_eq_ok hkey h
  cases hwoken with
  | again receipt' _ hstored' hdecided =>
    rw [hstored, Option.some.injEq] at hstored'
    have houtput : receipt.output = receipt'.output :=
      congrArg (fun r : EffectRow => r.payload.output) hstored'
    rw [houtput]
    exact hdecided.reads.symm
  | early habsent =>
    rw [hstored] at habsent
    cases habsent
  | recorded _ _ habsent =>
    rw [hstored] at habsent
    cases habsent

/-- A step that makes a wake receipt appear is a wake that was due. -/
theorem Change.appears (h : Change sv sha256 s s') (hruns : identity.operation = "run:workflow")
    (habsent : s.effects.lookup (sv.children.key (wakeIdentity identity)) = none)
    (happears : s'.effects.lookup (sv.children.key (wakeIdentity identity)) ≠ none) :
    ∃ wait parent now reason row, wait.identity = identity ∧
      (wake sv wait parent now).run s = .ok (some reason, s') ∧
      s.waits.lookup (sv.children.key identity) = some row ∧
      Due s.children row.payload.suspension now reason := by
  cases h with
  | same => exact absurd habsent happears
  | armed _ _ _ harms =>
    refine absurd ?_ happears
    rw [harms.store]
    exact (Table.lookup_insertNew_ne
      (fun heq => wakeIdentity_ne_awaitIdentity _ _ (hkey heq))).trans habsent
  | woken wait parent now reason row _ _ hrun hfound _ hdue =>
    by_cases hsame : wakeIdentity identity = wakeIdentity wait.identity
    · have hidentity := wakeIdentity_inj hruns (hfound.runs hkey).2 hsame
      subst hidentity
      exact ⟨wait, parent, now, reason, row, rfl, hrun, hfound.stored, hdue⟩
    · refine absurd ?_ happears
      exact (Table.lookup_insertNew_ne (fun heq => hsame (hkey heq))).trans habsent
  | consumed => exact absurd habsent happears
  | children => exact absurd habsent happears
  | effects _ _ _ hother hframe =>
    refine absurd ?_ happears
    refine (hframe _ ?_).trans habsent
    intro heq
    exact hother (hkey heq ▸ wakeIdentity_isWait _)

end

/-- **A child wait has one immutable decision.**  In every state that a run reaches: wakes of one
wait now and later answer the same reason; a wake receipt appears only by a wake that was due, for
a terminal child or past the deadline; a wait has left `pending` exactly when its wake receipt
stands; a recorded reason has its evidence, which verifies again; and a step moves the state of a
wait forward and keeps its wake receipt. -/
theorem child_wait_one_decision (hkey : Function.Injective sv.children.key)
    (hnonempty : ∀ identity, sv.children.key identity ≠ "") {s₀ : WaitStore} (h₀ : Initial s₀)
    (hs : Steps sv sha256 s₀ s) :
    (∀ (wait wait' : ChildWaitRegistration) (parent parent' : ExecutionHandle) (now now' : ℚ)
        (reason : WaitReason) (answer' : Option WaitReason) (s₁ s₂ s₃ : WaitStore),
        wait'.identity = wait.identity →
        (wake sv wait parent now).run s = .ok (some reason, s₁) → Steps sv sha256 s₁ s₂ →
        (wake sv wait' parent' now').run s₂ = .ok (answer', s₃) → answer' = some reason) ∧
      (∀ (s' : WaitStore) (identity : EffectIdentity), Step sv sha256 s s' →
        identity.operation = "run:workflow" →
        s.effects.lookup (sv.children.key (wakeIdentity identity)) = none →
        s'.effects.lookup (sv.children.key (wakeIdentity identity)) ≠ none →
        ∃ (wait : ChildWaitRegistration) (parent : ExecutionHandle) (now : ℚ)
          (reason : WaitReason) (row : WaitRow), wait.identity = identity ∧
          (wake sv wait parent now).run s = .ok (some reason, s') ∧
          s.waits.lookup (sv.children.key identity) = some row ∧
          Due s.children row.payload.suspension now reason) ∧
      (∀ (key : String) (row : WaitRow), s.waits.lookup key = some row →
        (row.state ≠ .pending ↔ s.effects.lookup (wakeKey sv row) ≠ none) ∧
        (row.state ≠ .pending → ∃ (receipt : EffectReceipt) (reason : WaitReason),
          s.effects.lookup (wakeKey sv row) = some receipt.row ∧
          Decided sv row.payload.suspension receipt s.children reason) ∧
        ∀ s' : WaitStore, Step sv sha256 s s' →
          (∃ row', s'.waits.lookup key = some row' ∧ Moves row row') ∧
          ∀ stored, s.effects.lookup (wakeKey sv row) = some stored →
            s'.effects.lookup (wakeKey sv row) = some stored) := by
  have hbooks : Books sv s := hs.books hkey hnonempty h₀.books
  refine ⟨?_, ?_, ?_⟩
  · intro wait wait' parent parent' now now' reason answer' s₁ s₂ s₃ hsame hwake hsteps hwake'
    obtain ⟨receipt, hstored, hreads⟩ := wake_recorded hkey hwake
    have hlater := Steps.keeps hkey hsteps hstored
    rw [← hsame] at hlater
    rw [wake_reads hkey hlater hwake', hreads]
  · intro s' identity hstep hruns habsent happears
    exact (hstep.cases hkey).appears hkey hruns habsent happears
  · intro key row hrow
    have hrowBooks := hbooks.rows key row hrow
    refine ⟨⟨fun hleft => ?_, fun hpresent hpending => hpresent (hrowBooks.pending hpending)⟩,
      hrowBooks.left, fun s' hstep => ⟨(hstep.cases hkey).moves hkey hbooks hrow,
        fun stored hstored => (hstep.cases hkey).keeps hkey hstored⟩⟩
    obtain ⟨receipt, -, hstored, -⟩ := hrowBooks.left hleft
    rw [hstored]
    exact Option.some_ne_none _

end Runs

/-! ## A wait that two wakers race for -/

namespace Race

/-- Sixty-four hexadecimal digits. -/
def digest : String := String.ofList (List.replicate 64 'a')

def services : WaitServices where
  children := { Root.services with hash := fun _ _ => digest }
  journal := { JournalServices.permissive with key := Root.services.key }
  same_key := rfl

theorem key_injective : Function.Injective services.children.key := by
  intro a b h
  apply EffectIdentity.text_injective
  have hchars := congrArg String.toList h
  simp only [services, Root.services, String.toList_append] at hchars
  exact String.toList_injective (List.append_cancel_left hchars)

/-- The root runs under its lease, and nothing is reserved or awaited yet. -/
def store : WaitStore := ⟨Root.store, ∅, ∅, ∅⟩

def ids : DrawnIds :=
  ⟨"01234567-89ab-cdef-0123-456789abcdef", "child-reference", "child-session", Root.hex⟩

theorem initial : Initial store := ⟨Root.initial, rfl⟩

theorem drawn : Drawn store.children Root.request ids where
  loaded := rfl
  invocationId := by decide
  revision := by decide
  sessionId := by decide

def reserveChild : Transaction OwaError WaitStore ExecutionHandle :=
  (reserve services.children Root.policy Root.request ids).zoom WaitStore.children
    (fun c s => { s with children := c })

/-- The child is reserved and awaited until 20; wakers come at 15, at 20 and at 30. -/
def race : Transaction OwaError WaitStore
    (Option WaitReason × Option WaitReason × Option WaitReason) := do
  let _ ← reserveChild
  let wait ← arm services Root.request.identity Root.request.parent ids.invocationId []
    (some 20)
  let early ← wake services wait Root.request.parent 15
  let first ← wake services wait Root.request.parent 20
  let second ← wake services wait Root.request.parent 30
  return (early, first, second)

theorem race_answers :
    (race.answer store).toOption.any (fun r => r.1 = none ∧ r.2.1 = some .deadline) = true := by
  decide +kernel

end Race

/-- In the race above the waker before the deadline gets nothing, the next one records the
deadline, and the last one reads it. -/
theorem child_wait_one_decision_race :
    ∃ second s, Race.race.run Race.store = .ok ((none, some .deadline, second), s) ∧
      second = some .deadline := by
  have hok := Race.race_answers
  unfold answer at hok
  cases hrace : Race.race.run Race.store with
  | error =>
    rw [hrace] at hok
    cases hok
  | ok r =>
    obtain ⟨⟨early, first, second⟩, s⟩ := r
    rw [hrace] at hok
    obtain ⟨rfl, rfl⟩ : early = none ∧ first = some .deadline := of_decide_eq_true hok
    have hparts := hrace
    simp only [Race.race, run_eq_ok, Prod.mk.injEq] at hparts
    obtain ⟨_, s₁, hreserve, wait, s₂, harm, early', s₃, hearly, first', s₄, hfirst, second', s₅,
      hsecond, ⟨rfl, rfl, rfl⟩, rfl⟩ := hparts
    unfold Race.reserveChild at hreserve
    rw [zoom_eq_ok] at hreserve
    obtain ⟨c, hreserved, rfl⟩ := hreserve
    have hsteps : Steps Race.services (fun _ => "") Race.store s₃ :=
      ((Relation.ReflTransGen.single (Step.children (.reserve Race.drawn hreserved))).tail
        (Step.arm harm)).tail (Step.wake hearly)
    obtain ⟨hsame, -, -⟩ :=
      child_wait_one_decision Race.key_injective Root.key_ne Race.initial hsteps
    have hanswer := hsame _ _ _ _ _ _ _ _ _ _ _ rfl hfirst .refl hsecond
    exact ⟨_, _, rfl, hanswer⟩

end ChildWaits
