/-
# A sandbox job is launched at most once

Any number of deliveries, cancellations and admissions interleave over one job store; any of them
may be lost at any point, leases expire as the clock moves, and whoever finds an expired lease takes
the job over.

The argument does not rest on leases.  A job leaves `ready` for good when its submit intent is
stored, so the intent of a job carries one submit id for ever; a delivery calls `submit_job` only
after it has stored an intent with the id it drew itself, and only once.  A job that is controlled
while it has no intent never gets one.
-/
import OpenWorkflowAgent.SandboxJobs

open Transaction Procedure

namespace SandboxJobs

/-! ## What can happen to a row -/

/-- What any operation can do to the delivery row of a job. -/
structure Delivery.Leads (d d' : Delivery) : Prop where
  submit : ∀ e, d.submit = some e → d'.submit = some e
  control : ∀ e, d.control = some e → d'.control = some e
  /-- No job becomes ready again. -/
  ready : d'.status = .ready → d.status = .ready
  unsubmitted : d'.status = .ready → d'.submit = d.submit
  /-- A job that is controlled without an intent never gets one. -/
  barred : d.control ≠ none → d.submit = none → d'.submit = none

theorem Delivery.Leads.refl (d : Delivery) : d.Leads d :=
  ⟨fun _ h => h, fun _ h => h, fun h => h, fun _ => rfl, fun _ h => h⟩

theorem Delivery.Leads.trans {d₁ d₂ d₃ : Delivery} (h₁ : d₁.Leads d₂) (h₂ : d₂.Leads d₃) :
    d₁.Leads d₃ where
  submit := fun e h => h₂.submit e (h₁.submit e h)
  control := fun e h => h₂.control e (h₁.control e h)
  ready := fun h => h₁.ready (h₂.ready h)
  unsubmitted := fun h => (h₂.unsubmitted h).trans (h₁.unsubmitted (h₂.ready h))
  barred := by
    intro hcontrol hsubmit
    obtain ⟨e, he⟩ := Option.ne_none_iff_exists'.mp hcontrol
    refine h₂.barred ?_ (h₁.barred hcontrol hsubmit)
    rw [h₁.control e he]
    exact Option.some_ne_none e

/-- No row is lost, and rows change as `Leads` allows. -/
def Progress (s s' : JobStore) : Prop :=
  ∀ j d, s.delivery.lookup j = some d → ∃ d', s'.delivery.lookup j = some d' ∧ d.Leads d'

theorem Progress.refl (s : JobStore) : Progress s s := fun _ d h => ⟨d, h, .refl d⟩

theorem Progress.trans {s₁ s₂ s₃ : JobStore} (h₁ : Progress s₁ s₂) (h₂ : Progress s₂ s₃) :
    Progress s₁ s₃ := by
  intro j d hd
  obtain ⟨d', hd', hleads⟩ := h₁ j d hd
  obtain ⟨d'', hd'', hleads'⟩ := h₂ j d' hd'
  exact ⟨d'', hd'', hleads.trans hleads'⟩

/-- A step that launches nothing; new rows are those of new jobs. -/
structure Quietly (s s' : JobStore) : Prop where
  progress : Progress s s'
  added : ∀ j d', s'.delivery.lookup j = some d' →
    (∃ d, s.delivery.lookup j = some d) ∨ d' = .admitted
  launches : s'.launches = s.launches

theorem Quietly.of_eq {s s' : JobStore} (h : s'.delivery = s.delivery)
    (hlaunches : s'.launches = s.launches) : Quietly s s' := by
  refine ⟨fun j d hd => ⟨d, by rw [h]; exact hd, .refl d⟩, fun j d hd => .inl ⟨d, ?_⟩, hlaunches⟩
  rwa [h] at hd

theorem Quietly.refl (s : JobStore) : Quietly s s := .of_eq rfl rfl

theorem Quietly.update {s : JobStore} {j : String} {f : Delivery → Delivery}
    (h : ∀ d, s.delivery.lookup j = some d → d.Leads (f d)) :
    Quietly s { s with delivery := s.delivery.updateWhere j (fun _ => true) f } := by
  refine ⟨fun k d hd => ?_, fun k d' hd' => .inl ?_, rfl⟩
  · by_cases hk : k = j
    · subst hk
      refine ⟨f d, ?_, h d hd⟩
      show (s.delivery.updateWhere k (fun _ => true) f).lookup k = some (f d)
      rw [Table.lookup_updateWhere_self, hd]
      rfl
    · refine ⟨d, ?_, .refl d⟩
      show (s.delivery.updateWhere j (fun _ => true) f).lookup k = some d
      rw [Table.lookup_updateWhere_ne hk]
      exact hd
  · change (s.delivery.updateWhere j (fun _ => true) f).lookup k = some d' at hd'
    by_cases hk : k = j
    · subst hk
      rw [Table.lookup_updateWhere_self, Option.map_eq_some_iff] at hd'
      obtain ⟨d, hd, -⟩ := hd'
      exact ⟨d, hd⟩
    · rw [Table.lookup_updateWhere_ne hk] at hd'
      exact ⟨d', hd'⟩

/-! ## What the operations answer and leave

One lemma for each part of a transaction; the operations are then peeled apart with
`bind_eq_ok`. -/

section Parts

variable {s s' : JobStore} {i : String} {lease : JobLease}

theorem recordOf_eq_some {job : Job} (h : recordOf s i = .ok (some job)) :
    isJobId i = true ∧ s.jobs.lookup i = some job.admission ∧
      s.delivery.lookup i = some job.delivery ∧ job.admission.jobId = i ∧
      consistent s job.admission job.delivery = true := by
  unfold recordOf at h
  split at h
  · cases h
  · rename_i hid
    split at h
    · cases h
    · rename_i a d ha hd
      split at h
      · rename_i hcond
        cases h
        exact ⟨by simpa using hid, ha, hd, hcond⟩
      · cases h
    · cases h

theorem getJob_ok {r : Option Job} (h : (getJob i).run s = .ok (r, s')) :
    s' = s ∧ recordOf s i = .ok r := by
  simp only [getJob, run_eq_ok] at h
  obtain ⟨hrecord, rfl⟩ := h
  exact ⟨rfl, hrecord⟩

theorem requireJob_ok {job : Job} (h : (requireJob i).run s = .ok (job, s')) :
    s' = s ∧ s.delivery.lookup i = some job.delivery ∧ job.admission.jobId = i := by
  simp only [requireJob, run_eq_ok] at h
  obtain ⟨r, s₁, hget, rfl, rfl⟩ := h
  obtain ⟨rfl, hrecord⟩ := getJob_ok hget
  obtain ⟨-, -, hdelivery, hid, -⟩ := recordOf_eq_some hrecord
  exact ⟨rfl, hdelivery, hid⟩

theorem authority_ok {u : Unit} (h : (authority i).run s = .ok (u, s')) : s' = s := by
  simp only [authority, run_eq_ok] at h
  obtain ⟨-, rfl⟩ := h
  rfl

theorem fence_ok {u : Unit} (h : (fence lease).run s = .ok (u, s')) : s' = s := by
  simp only [fence, run_eq_ok] at h
  obtain ⟨-, rfl⟩ := h
  rfl

theorem owned_ok {job : Job} (h : (owned lease).run s = .ok (job, s')) :
    s' = s ∧ s.delivery.lookup lease.jobId = some job.delivery ∧
      job.admission.jobId = lease.jobId := by
  simp only [owned, run_eq_ok] at h
  obtain ⟨j, s₁, hjob, -, s₃, hauth, rfl, rfl⟩ := h
  obtain ⟨rfl, hrow, hid⟩ := requireJob_ok hjob
  exact ⟨authority_ok hauth, hrow, hid⟩

theorem insertReceipt_ok {policy : Policy} {receipt : Receipt} {u : Unit}
    (h : (insertReceipt i policy receipt).run s = .ok (u, s')) :
    s' = { s with receipts := s.receipts.insertNew (i, policy) receipt } ∧
      ∀ r, s.receipts.lookup (i, policy) = some r → r = receipt := by
  simp only [insertReceipt, run_eq_ok] at h
  obtain ⟨hsame, rfl⟩ := h
  refine ⟨rfl, fun r hr => ?_⟩
  by_contra hne
  exact hsame ⟨by simp [hr], by simp [hr, hne]⟩

end Parts

/-! ## Every operation is quiet -/

/-- The committed runs of the transaction launch nothing and change rows as allowed. -/
def Calm {α : Type} (t : JobTransaction α) : Prop :=
  ∀ s a s', (∀ j d, s.delivery.lookup j = some d → d.status = .ready → d.submit = none) →
    t.run s = .ok (a, s') → Quietly s s'

/-- A receipt, then a change of the row. -/
theorem Quietly.event {s s₁ s₂ : JobStore} {j i : String} {policy : Policy} {receipt : Receipt}
    {f : Delivery → Delivery} {u v : Unit}
    (hreceipt : (insertReceipt i policy receipt).run s = .ok (u, s₁))
    (hupdate : (updateDelivery j f).run s₁ = .ok (v, s₂))
    (h : ∀ d, s.delivery.lookup j = some d → d.Leads (f d)) : Quietly s s₂ := by
  obtain ⟨rfl, -⟩ := insertReceipt_ok hreceipt
  rw [updateDelivery, write_eq_ok] at hupdate
  rw [← hupdate]
  have hquiet := Quietly.update
    (s := { s with receipts := s.receipts.insertNew (i, policy) receipt }) h
  exact ⟨hquiet.progress, hquiet.added, rfl⟩

/-- A change that neither touches the intent nor the control, and after which the job is not ready
unless it was. -/
theorem Delivery.Leads.of_same {d d' : Delivery} (hsubmit : d'.submit = d.submit)
    (hcontrol : d'.control = d.control) (hready : d'.status = .ready → d.status = .ready) :
    d.Leads d' where
  submit := fun e h => by rw [hsubmit]; exact h
  control := fun e h => by rw [hcontrol]; exact h
  ready := hready
  unsubmitted := fun _ => hsubmit
  barred := fun _ h => by rw [hsubmit]; exact h

theorem calm_getJob (i : String) : Calm (getJob i) := by
  intro s a s' _ h
  obtain ⟨rfl, -⟩ := getJob_ok h
  exact .refl _

theorem calm_verify (lease : JobLease) : Calm (verify lease) := by
  intro s a s' _ h
  simp only [verify, bind_eq_ok] at h
  obtain ⟨_, s₁, hfence, howned⟩ := h
  obtain rfl := fence_ok hfence
  obtain ⟨rfl, -⟩ := owned_ok howned
  exact .refl _

theorem calm_peek (i : String) : Calm (peek i) := by
  intro s a s' _ h
  simp only [peek, run_eq_ok] at h
  obtain ⟨job, s₁, hjob, s₂, hauth, rfl, rfl⟩ := h
  obtain ⟨rfl, -⟩ := requireJob_ok hjob
  obtain rfl := authority_ok hauth
  exact .refl _

variable {s s' : JobStore} {job : Job} {u : Unit} {lease : JobLease}

theorem claimJob_ok {owner : String} {seconds : ℚ}
    (h : (claimJob job owner seconds).run s = .ok (lease, s')) :
    lease.jobId = job.admission.jobId ∧ ∃ ownership, s' = { s with ownership := ownership } := by
  simp only [claimJob, setOwnership, run_eq_ok] at h
  obtain ⟨found, s₁, hjob, -, s₃, hauth, o, -, rfl, rfl⟩ := h
  obtain ⟨rfl, -⟩ := requireJob_ok hjob
  obtain rfl := authority_ok hauth
  exact ⟨rfl, _, rfl⟩

theorem calm_claimJob (job : Job) (owner : String) (seconds : ℚ) :
    Calm (claimJob job owner seconds) := by
  intro s a s' _ h
  obtain ⟨-, ownership, rfl⟩ := claimJob_ok h
  exact .of_eq rfl rfl

theorem renew_ok {lease lease' : JobLease} {seconds : ℚ}
    (h : (renew lease seconds).run s = .ok (lease', s')) :
    lease'.jobId = lease.jobId ∧ ∃ ownership, s' = { s with ownership := ownership } := by
  simp only [renew, setOwnership, run_eq_ok] at h
  obtain ⟨s₁, hfence, found, s₂, hjob, s₃, hauth, o, -, rfl, rfl⟩ := h
  obtain rfl := fence_ok hfence
  obtain ⟨rfl, -⟩ := requireJob_ok hjob
  obtain rfl := authority_ok hauth
  exact ⟨rfl, _, rfl⟩

theorem calm_renew (lease : JobLease) (seconds : ℚ) : Calm (renew lease seconds) := by
  intro s a s' _ h
  obtain ⟨-, ownership, rfl⟩ := renew_ok h
  exact .of_eq rfl rfl

theorem calm_release (lease : JobLease) : Calm (release lease) := by
  intro s a s' _ h
  simp only [release, setOwnership, run_eq_ok] at h
  obtain ⟨s₁, hfence, o, -, rfl⟩ := h
  obtain rfl := fence_ok hfence
  exact .of_eq rfl rfl

/-- The intent is stored with the id that was drawn for it. -/
theorem beginSubmit_ok {submitId : String}
    (hready : ∀ j d, s.delivery.lookup j = some d → d.status = .ready → d.submit = none)
    (h : (beginSubmit lease submitId).run s = .ok (u, s')) :
    Quietly s s' ∧ ∃ d e, s'.delivery.lookup lease.jobId = some d ∧ d.submit = some e ∧
      e.value.submitId = submitId := by
  simp only [beginSubmit, run_eq_ok] at h
  obtain ⟨s₁, hfence, job, s₂, howned, hcond, -, s₆, hreceipt, hupdate⟩ := h
  obtain rfl := fence_ok hfence
  obtain ⟨rfl, hrow, -⟩ := owned_ok howned
  rw [not_or, not_not, not_not] at hcond
  refine ⟨Quietly.event hreceipt hupdate fun d hd => ?_, ?_⟩
  · rw [hrow, Option.some.injEq] at hd
    subst hd
    have hnone := hready _ _ hrow hcond.1
    refine ⟨fun e he => ?_, fun e he => he, by simp, by simp, fun hc => absurd hcond.2 hc⟩
    rw [hnone] at he
    cases he
  · obtain ⟨rfl, -⟩ := insertReceipt_ok hreceipt
    rw [updateDelivery, write_eq_ok] at hupdate
    rw [← hupdate]
    set event := stamp job (SubmitEvent.mk job.admission.requestDigest submitId lease.owner
      lease.generation)
    refine ⟨{ job.delivery with submit := some event, status := .submitting }, event, ?_, rfl, rfl⟩
    show (Table.updateWhere lease.jobId _ _ _).lookup lease.jobId = _
    simp only [Table.lookup_updateWhere_self, hrow, Option.map_some, if_true]

theorem calm_beginSubmit (lease : JobLease) (submitId : String) :
    Calm (beginSubmit lease submitId) := fun _ _ _ hready h => (beginSubmit_ok hready h).1

theorem calm_recordAccepted (lease : JobLease) (binding : BackendBinding) :
    Calm (recordAccepted lease binding) := by
  intro s a s' _ h
  simp only [recordAccepted, run_eq_ok] at h
  obtain ⟨s₁, hfence, job, s₂, howned, -, -, s₅, hreceipt, s₆, hupdate, found, s₇, hget, -,
    rfl⟩ := h
  obtain rfl := fence_ok hfence
  obtain ⟨rfl, -⟩ := owned_ok howned
  obtain ⟨rfl, -⟩ := getJob_ok hget
  exact Quietly.event hreceipt hupdate fun d _ => .of_same rfl rfl (by simp)

theorem calm_markUncertain (lease : JobLease) (reason : Uncertainty) :
    Calm (markUncertain lease reason) := by
  intro s a s' _ h
  simp only [markUncertain, updateDelivery, run_eq_ok] at h
  obtain ⟨s₁, hfence, job, s₂, howned, -, rfl⟩ := h
  obtain rfl := fence_ok hfence
  obtain ⟨rfl, -⟩ := owned_ok howned
  exact .update fun d _ => .of_same rfl rfl (by simp)

theorem calm_storeControl {control : Stamped ControlEvent}
    (hrow : s.delivery.lookup job.admission.jobId = some job.delivery)
    (h : (storeControl job control).run s = .ok (u, s')) : Quietly s s' := by
  unfold storeControl at h
  split at h
  · rw [raiseIf_eq_ok] at h
    obtain ⟨-, rfl⟩ := h
    exact .refl _
  · rename_i hnone
    simp only [run_eq_ok] at h
    obtain ⟨-, -, s₂, hreceipt, hupdate⟩ := h
    refine Quietly.event hreceipt hupdate fun d hd => ?_
    rw [hrow, Option.some.injEq] at hd
    subst hd
    refine ⟨fun e he => he, fun e he => ?_, fun hr => hr, fun _ => rfl, fun _ he => he⟩
    rw [hnone] at he
    cases he

theorem calm_requestControl (lease : JobLease) (reason : ControlReason)
    (principal : Option String) : Calm (requestControl lease reason principal) := by
  intro s a s' _ h
  simp only [requestControl, run_eq_ok] at h
  obtain ⟨s₁, hfence, job, s₂, howned, -, hstore⟩ := h
  obtain rfl := fence_ok hfence
  obtain ⟨rfl, hrow, hid⟩ := owned_ok howned
  exact calm_storeControl (by rw [hid]; exact hrow) hstore

theorem calm_acknowledgeControl (lease : JobLease) (binding : BackendBinding) (generation : ℕ) :
    Calm (acknowledgeControl lease binding generation) := by
  intro s a s' _ h
  simp only [acknowledgeControl, run_eq_ok] at h
  obtain ⟨s₁, hfence, job, s₂, howned, control, -, -, s₅, hreceipt, hupdate⟩ := h
  obtain rfl := fence_ok hfence
  obtain ⟨rfl, -⟩ := owned_ok howned
  exact Quietly.event hreceipt hupdate fun d _ => .of_same rfl rfl fun hr => hr

theorem calm_settleUnstartedControl (lease : JobLease) : Calm (settleUnstartedControl lease) := by
  intro s a s' _ h
  simp only [settleUnstartedControl, run_eq_ok] at h
  obtain ⟨s₁, hfence, job, s₂, howned, -, s₄, hreceipt, s₅, hupdate, found, s₆, hget, -, rfl⟩ := h
  obtain rfl := fence_ok hfence
  obtain ⟨rfl, -⟩ := owned_ok howned
  obtain ⟨rfl, -⟩ := requireJob_ok hget
  exact Quietly.event hreceipt hupdate fun d _ => .of_same rfl rfl (by simp)

theorem calm_recordOriginalDeadline (lease : JobLease) (binding : BackendBinding)
    (outcome : ExecutionResult) (proof : DeadlineProof) :
    Calm (recordOriginalDeadline lease binding outcome proof) := by
  intro s a s' _ h
  simp only [recordOriginalDeadline, run_eq_ok] at h
  obtain ⟨-, s₂, hfence, job, s₃, howned, -, s₆, hreceipt, evidence, -, -, rfl⟩ := h
  obtain rfl := fence_ok hfence
  obtain ⟨rfl, -⟩ := owned_ok howned
  obtain ⟨rfl, -⟩ := insertReceipt_ok hreceipt
  exact .of_eq rfl rfl

theorem calm_storeTerminal {event : Stamped TerminalEvent}
    (h : (storeTerminal job event).run s = .ok (u, s')) : Quietly s s' := by
  unfold storeTerminal at h
  split at h
  · rw [raiseIf_eq_ok] at h
    obtain ⟨-, rfl⟩ := h
    exact .refl _
  · simp only [run_eq_ok] at h
    obtain ⟨-, -, s₁, hreceipt, s₂, hupdate, found, s₃, hget, -, rfl⟩ := h
    obtain ⟨rfl, -⟩ := requireJob_ok hget
    exact Quietly.event hreceipt hupdate fun d _ => .of_same rfl rfl (by simp)

theorem calm_recordTerminal (lease : JobLease) (binding : BackendBinding)
    (outcome : ExecutionResult) (reason : TerminalReason) :
    Calm (recordTerminal lease binding outcome reason) := by
  intro s a s' _ h
  simp only [recordTerminal, run_eq_ok] at h
  obtain ⟨-, s₂, hfence, job, s₃, howned, -, -, hstore⟩ := h
  obtain rfl := fence_ok hfence
  obtain ⟨rfl, -⟩ := owned_ok howned
  exact calm_storeTerminal hstore

theorem calm_admitJob (r : AdmissionRequest) : Calm (admitJob r) := by
  intro s a s' _ h
  simp only [admitJob, run_eq_ok] at h
  obtain ⟨-, prior, s₂, hget, hadmitted⟩ := h
  obtain ⟨rfl, hrecord⟩ := getJob_ok hget
  cases prior with
  | some =>
    rw [admitNew, raiseIf_eq_ok] at hadmitted
    obtain ⟨-, rfl⟩ := hadmitted
    exact .refl _
  | none =>
    have hfree : s₂.delivery.lookup r.admission.jobId = none := by
      unfold recordOf at hrecord
      split at hrecord
      · cases hrecord
      · split at hrecord
        · assumption
        · split at hrecord <;> cases hrecord
        · cases hrecord
    simp only [admitNew, insertJob, run_eq_ok] at hadmitted
    obtain ⟨-, -, found, s₈, hfound, -, rfl⟩ := hadmitted
    obtain ⟨rfl, -⟩ := requireJob_ok hfound
    refine ⟨fun j d hd => ⟨d, ?_, .refl d⟩, fun j d' hd' => ?_, rfl⟩
    · have hne : j ≠ r.admission.jobId := by
        rintro rfl
        rw [hfree] at hd
        cases hd
      show (Table.put _ _ _).lookup j = some d
      rw [Table.lookup_put_ne hne]
      exact hd
    · change (Table.put _ _ _).lookup j = some d' at hd'
      rw [Table.lookup_put] at hd'
      split at hd'
      · exact .inr (Option.some.inj hd').symm
      · exact .inl ⟨d', hd'⟩

/-! ## Deliveries among others -/

def Call.launchId : Call → Option String
  | .deliver c => some c.submitId
  | _ => none

/-- Ready jobs have no intent; every launch carries the submit id of the job's intent; and no
submit id was launched twice. -/
structure Accounted (s : JobStore) : Prop where
  ready : ∀ j d, s.delivery.lookup j = some d → d.status = .ready → d.submit = none
  launched : ∀ x ∈ s.launches, ∃ d e, s.delivery.lookup x.1 = some d ∧ d.submit = some e ∧
    e.value.submitId = x.2
  nodup : (s.launches.map Prod.snd).Nodup

/-- The clock, the evidence and the authority change as they like. -/
def Elsewhere (s s' : JobStore) : Prop :=
  ∃ clock evident authorized,
    s' = { s with clock := clock, evident := evident, authorized := authorized }

/-- What a call sees of the others. -/
structure Relies (c : Call) (s s' : JobStore) : Prop where
  progress : Progress s s'
  fresh : ∀ id ∈ c.launchId, id ∉ s.launches.map Prod.snd → id ∉ s'.launches.map Prod.snd

def OwnIntent (c : DeliveryCall) (s : JobStore) : Prop :=
  ∃ d e, s.delivery.lookup c.identifier = some d ∧ d.submit = some e ∧ e.value.submitId = c.submitId

/-- What one step of a call does: nothing but quiet changes, or the one launch of a delivery that
stored the intent. -/
inductive Guarantee (c : Call) (s s' : JobStore) : Prop
  | quiet (h : Quietly s s')
  | launch (d : DeliveryCall) (hc : c = .deliver d) (hfresh : d.submitId ∉ s.launches.map Prod.snd)
      (hown : OwnIntent d s) (h : s' = logLaunch d s)

/-- Deliveries draw different submit ids. -/
def protocol : Protocol Call JobStore (Except JobError Unit × DeliveryMemory) where
  body c := (body c).start ⟨none, false⟩
  pre c s := ∀ id ∈ c.launchId, id ∉ s.launches.map Prod.snd
  apart c c' := ∀ id ∈ c.launchId, id ∉ c'.launchId
  env := Elsewhere

section Discipline

variable {s s' : JobStore} {c : Call}

theorem Quietly.relies (h : Quietly s s') : Relies c s s' :=
  ⟨h.progress, fun id _ hfresh => by rw [h.launches]; exact hfresh⟩

theorem Relies.trans {s₁ s₂ s₃ : JobStore} (h₁ : Relies c s₁ s₂) (h₂ : Relies c s₂ s₃) :
    Relies c s₁ s₃ :=
  ⟨h₁.progress.trans h₂.progress, fun id hid h => h₂.fresh id hid (h₁.fresh id hid h)⟩

theorem Elsewhere.quietly (h : Elsewhere s s') : Quietly s s' := by
  obtain ⟨clock, evident, authorized, rfl⟩ := h
  exact .of_eq rfl rfl

theorem quietly_logLaunch_progress (d : DeliveryCall) : Progress s (logLaunch d s) :=
  fun _ row h => ⟨row, h, .refl row⟩

/-- What one call does, every call with another submit id can rely on. -/
theorem Guarantee.relies {c' : Call} (happart : ∀ id ∈ c.launchId, id ∉ c'.launchId)
    (h : Guarantee c s s') : Relies c' s s' := by
  cases h with
  | quiet h => exact h.relies
  | launch d hc _ _ h =>
    subst h hc
    refine ⟨quietly_logLaunch_progress d, fun id hid hnot => ?_⟩
    have hne : id ≠ d.submitId := by
      rintro rfl
      exact happart d.submitId rfl hid
    show id ∉ d.submitId :: s.launches.map Prod.snd
    rw [List.mem_cons, not_or]
    exact ⟨hne, hnot⟩

theorem OwnIntent.mono {d : DeliveryCall} (h : OwnIntent d s) (hp : Progress s s') :
    OwnIntent d s' := by
  obtain ⟨row, e, hrow, he, hid⟩ := h
  obtain ⟨row', hrow', hleads⟩ := hp _ _ hrow
  exact ⟨row', e, hrow', hleads.submit e he, hid⟩

theorem Accounted.quietly (h : Accounted s) (hq : Quietly s s') : Accounted s' where
  ready := by
    intro j d' hd' hready
    rcases hq.added j d' hd' with ⟨d, hd⟩ | rfl
    · obtain ⟨d'', hd'', hleads⟩ := hq.progress j d hd
      rw [hd', Option.some.injEq] at hd''
      subst hd''
      rw [hleads.unsubmitted hready]
      exact h.ready j d hd (hleads.ready hready)
    · rfl
  launched := by
    intro x hx
    rw [hq.launches] at hx
    obtain ⟨d, e, hd, he, hid⟩ := h.launched x hx
    obtain ⟨d', hd', hleads⟩ := hq.progress x.1 d hd
    exact ⟨d', e, hd', hleads.submit e he, hid⟩
  nodup := by
    rw [hq.launches]
    exact h.nodup

theorem Accounted.guarantee (h : Accounted s) (hg : Guarantee c s s') : Accounted s' := by
  cases hg with
  | quiet hq => exact h.quietly hq
  | launch _ _ hfresh hown heq =>
    subst heq
    refine ⟨h.ready, fun x hx => ?_, List.nodup_cons.mpr ⟨hfresh, h.nodup⟩⟩
    rcases List.mem_cons.mp hx with rfl | hx
    · exact hown
    · exact h.launched x hx

end Discipline

/-! ## The parts of a delivery

`J` stands for what a call knows of the store and no step of another party undoes. -/

section Parts

variable {α β : Type} (call : Call) (c : DeliveryCall)

/-- The lease that the delivery holds is one of its job. -/
def Mine (m : DeliveryMemory) : Prop := ∀ lease, m.lease = some lease → lease.jobId = c.identifier

/-- Kept by everything that the call relies on. -/
def Stable (J : JobStore → Prop) : Prop := ∀ s s', J s → Relies call s s' → J s'

/-- The procedure launches nothing and keeps every stable fact. -/
def Tame (x : Run α) : Prop :=
  ∀ J : JobStore → Prop, Stable call J →
    Keeps Accounted (Relies call) (Guarantee call) (fun m s => Mine c m ∧ J s) x

variable {call c}

theorem guarantee_of_calm {t : JobTransaction α} (ht : Calm t) {s : JobStore} (hs : Accounted s) :
    Quietly s (t.after s) :=
  after_induction (P := Quietly s) (.refl s) fun a s' h => ht s a s' hs.ready h

theorem tame_transaction {t : JobTransaction α} (ht : Calm t) :
    Tame call c (transaction t : Run α) := by
  intro J hJ
  refine keeps_transaction (fun m s s' h hr _ => ⟨h.1, hJ s s' h.2 hr⟩)
    (fun s hs => .quiet (guarantee_of_calm ht hs)) fun m s h hs => ⟨h.1, ?_⟩
  exact hJ s _ h.2 (guarantee_of_calm ht hs).relies

theorem tame_silent {x : Run α} (hx : Silent x) : Tame call c x := fun _ _ => hx.keeps

theorem tame_pure (a : α) : Tame call c (pure a : Run α) := tame_silent (silent_pure a)

theorem tame_orRaise (o : Option α) (e : JobError) : Tame call c (orRaise o e : Run α) :=
  tame_silent (silent_orRaise o e)

theorem Tame.bind {x : Run α} {f : α → Run β} (hx : Tame call c x) (hf : ∀ a, Tame call c (f a)) :
    Tame call c (x >>= f) := fun J hJ => (hx J hJ).bind fun a => hf a J hJ

theorem Tame.tryCatch {x : Run α} {handler : JobError → Run α} (hx : Tame call c x)
    (hhandler : ∀ e, Tame call c (handler e)) : Tame call c (tryCatch x handler) :=
  fun J hJ => (hx J hJ).tryCatch fun e => hhandler e J hJ

theorem tame_heldLease : Tame call c heldLease := by
  intro J _
  exact keeps_get.bind fun m => tame_orRaise m.lease failure J ‹_›

theorem tame_withLease {t : JobLease → JobTransaction α} (ht : ∀ lease, Calm (t lease)) :
    Tame call c (withLease t) := tame_heldLease.bind fun lease => tame_transaction (ht lease)

theorem tame_claim : Tame call c (claim c) := by
  intro J hJ m s h
  unfold claim
  rw [holds_bind, holds_transaction]
  intro s₁ hr₁ hs₁
  refine ⟨.quiet (guarantee_of_calm (calm_peek _) hs₁), ?_⟩
  have hJ₁ : J ((peek c.identifier).after s₁) :=
    hJ _ _ (hJ s s₁ h.2 hr₁) (guarantee_of_calm (calm_peek _) hs₁).relies
  cases hpeek : (peek c.identifier).answer s₁ with
  | error => exact ⟨h.1, hJ₁⟩
  | ok job =>
    have hid : job.admission.jobId = c.identifier := by
      obtain ⟨s', hrun⟩ := answer_eq_ok.mp hpeek
      simp only [peek, run_eq_ok] at hrun
      obtain ⟨found, s₂, hjob, s₃, hauth, rfl, rfl⟩ := hrun
      exact (requireJob_ok hjob).2.2
    show Holds _ _ _ _ (transaction (claimJob job c.owner c.leaseSeconds) >>= _) _ _
    rw [holds_bind, holds_transaction]
    intro s₂ hr₂ hs₂
    have hquiet := guarantee_of_calm (calm_claimJob job c.owner c.leaseSeconds) hs₂
    have hJ₂ := hJ _ _ (hJ _ s₂ hJ₁ hr₂) hquiet.relies
    refine ⟨.quiet hquiet, ?_⟩
    cases hclaim : (claimJob job c.owner c.leaseSeconds).answer s₂ with
    | error => exact ⟨h.1, hJ₂⟩
    | ok lease =>
      obtain ⟨s', hrun⟩ := answer_eq_ok.mp hclaim
      refine ⟨fun l hl => ?_, hJ₂⟩
      have : lease = l := Option.some.inj hl
      rw [← this, (claimJob_ok hrun).1, hid]

theorem tame_renewLease : Tame call c (renewLease c) := by
  intro J hJ m s h
  unfold renewLease withLease heldLease
  rw [holds_bind, holds_bind, holds_get_bind]
  cases hlease : m.lease with
  | none => exact h
  | some lease =>
    show Holds _ _ _ _ (pure lease) m s
    rw [holds_pure]
    dsimp only
    rw [holds_transaction]
    intro s₁ hr₁ hs₁
    have hquiet := guarantee_of_calm (calm_renew lease c.leaseSeconds) hs₁
    have hJ₁ := hJ _ _ (hJ s s₁ h.2 hr₁) hquiet.relies
    refine ⟨.quiet hquiet, ?_⟩
    cases hrenew : (renew lease c.leaseSeconds).answer s₁ with
    | error => exact ⟨h.1, hJ₁⟩
    | ok lease' =>
      obtain ⟨s', hrun⟩ := answer_eq_ok.mp hrenew
      refine ⟨fun l hl => ?_, hJ₁⟩
      have : lease' = l := Option.some.inj hl
      rw [← this, (renew_ok hrun).1, h.1 lease hlease]

theorem tame_current (profile : Except JobError Unit) : Tame call c (current profile) :=
  (tame_withLease calm_verify).bind fun _ =>
    (tame_silent (silent_raiseIf _ _)).bind fun _ =>
      (tame_silent (silent_orRaiseError _)).bind fun _ => tame_pure _

theorem tame_recordAck (binding : BackendBinding) (generation : Option ℕ) :
    Tame call c (recordAck binding generation) := by
  cases generation with
  | none => exact tame_pure _
  | some n => exact tame_withLease fun lease => calm_acknowledgeControl lease binding n

theorem tame_recordDeadline (binding : BackendBinding) (outcome : ExecutionResult)
    (proof : Option DeadlineProof) : Tame call c (recordDeadline binding outcome proof) := by
  cases proof with
  | none => exact tame_pure _
  | some p => exact tame_withLease fun lease => calm_recordOriginalDeadline lease binding outcome p

theorem tame_recordOutcome (o : Observation) (binding : BackendBinding) :
    Tame call c (recordOutcome o binding) := by
  unfold recordOutcome
  split
  · exact (tame_orRaise _ _).bind fun outcome => (tame_recordDeadline binding outcome _).bind
      fun _ => tame_withLease fun lease => calm_recordTerminal lease binding outcome o.reason
  · exact tame_pure _

theorem tame_record (o : Observation) : Tame call c (record o) := by
  unfold record
  split
  · exact tame_withLease fun lease => calm_markUncertain lease _
  · exact (tame_orRaise _ _).bind fun binding =>
      (tame_withLease fun lease => calm_recordAccepted lease binding).bind fun _ =>
        (tame_recordAck binding _).bind fun _ => tame_recordOutcome o binding

theorem tame_applyControl : Tame call c (applyControl c) :=
  tame_renewLease.bind fun _ => (tame_current _).bind fun _ =>
    (tame_silent (silent_orRaiseError _)).bind fun o => tame_record o

theorem tame_afterObservation (job : Option Job) : Tame call c (afterObservation c job) := by
  cases job with
  | none => exact tame_pure _
  | some =>
    unfold afterObservation
    dsimp only
    split
    · exact tame_pure _
    · exact tame_applyControl

theorem tame_afterCall (o : Observation) :
    Tame call c (do
      record o
      let job ← transaction (getJob c.identifier)
      afterObservation c job) :=
  (tame_record o).bind fun _ => (tame_transaction (calm_getJob _)).bind fun job =>
    tame_afterObservation job

theorem tame_observe_inspect : Tame call c (observe c false) :=
  tame_renewLease.bind fun _ => (tame_current _).bind fun _ =>
    (tame_silent (silent_orRaiseError _)).bind fun o => tame_afterCall o

theorem calm_read {f : JobStore → α} : Calm (read f) := by
  intro s a s' _ h
  rw [read_eq_ok] at h
  rw [h.2]
  exact .refl _

theorem tame_deadlineControl (job : Job) : Tame call c (deadlineControl c job) := by
  refine (tame_transaction calm_read).bind fun now => ?_
  split
  · exact (tame_withLease fun lease => calm_requestControl lease _ _).bind fun _ =>
      (tame_transaction (calm_getJob _)).bind fun again => tame_orRaise _ _
  · exact tame_pure _

theorem tame_handle (e : JobError) : Tame call c (handle e) := by
  cases e with
  | unreachable =>
    intro J hJ
    exact keeps_get.bind fun memory =>
      tame_withLease (fun lease => calm_markUncertain lease _) J hJ
  | raised => exact tame_silent (silent_throw _)
  | cancelled => exact tame_silent (silent_throw _)

theorem tame_release : Tame call c (tryCatch (withLease release) suppressConflict) := by
  refine (tame_withLease calm_release).tryCatch fun e => ?_
  cases e with
  | raised =>
    unfold suppressConflict
    dsimp only
    split
    · exact tame_pure _
    · exact tame_silent (silent_throw _)
  | cancelled => exact tame_silent (silent_throw _)
  | unreachable => exact tame_silent (silent_throw _)

end Parts

/-! ## The launch -/

section Launch

variable {c : DeliveryCall}

def Unlaunched (c : DeliveryCall) (s : JobStore) : Prop := c.submitId ∉ s.launches.map Prod.snd

/-- The delivery stored the intent and has not launched. -/
def MayLaunch (c : DeliveryCall) (s : JobStore) : Prop := OwnIntent c s ∧ Unlaunched c s

theorem stable_unlaunched : Stable (.deliver c) (Unlaunched c) := fun _ _ h hr =>
  hr.fresh c.submitId rfl h

theorem stable_mayLaunch : Stable (.deliver c) (MayLaunch c) := fun s s' h hr =>
  ⟨h.1.mono hr.progress, stable_unlaunched s s' h.2 hr⟩

theorem stable_true (call : Call) : Stable call fun _ => True := fun _ _ _ _ => trivial

/-- A part of the delivery that may launch: it starts before the launch. -/
def Launches {α : Type} (c : DeliveryCall) (J : JobStore → Prop) (x : Run α) : Prop :=
  ∀ m s, Mine c m ∧ J s → Holds Accounted (Relies (.deliver c)) (Guarantee (.deliver c))
    (fun _ m' _ => Mine c m' ∧ True) x m s

theorem Tame.launches {α : Type} {J : JobStore → Prop} (hJ : Stable (.deliver c) J) {x : Run α}
    (hx : Tame (.deliver c) c x) : Launches c J x := fun m s h =>
  holds_mono (fun _ _ _ h' => ⟨h'.1, trivial⟩) (hx J hJ m s h)

/-- A tame part, then one that may launch. -/
theorem Tame.launches_bind {α β : Type} {J : JobStore → Prop} (hJ : Stable (.deliver c) J)
    {x : Run α} {f : α → Run β} (hx : Tame (.deliver c) c x) (hf : ∀ a, Launches c J (f a)) :
    Launches c J (x >>= f) := fun _ _ h =>
  (hx J hJ).holds_bind h (fun _ _ _ h' => ⟨h'.1, trivial⟩) fun a m' s' h' => hf a m' s' h'

/-- The call of `submit_job`: the one step that launches. -/
theorem launches_submitJob : Launches c (MayLaunch c) (submitJob c) := by
  intro m s h
  unfold submitJob
  rw [holds_bind, holds_transaction]
  intro s₁ hr₁ hs₁
  have hmay := stable_mayLaunch s s₁ h.2 hr₁
  refine ⟨.launch c rfl hmay.2 hmay.1 rfl, ?_⟩
  exact tame_silent (silent_orRaiseError c.observed) _ (stable_true (.deliver c)) m _ ⟨h.1, trivial⟩

theorem launches_observe : Launches c (MayLaunch c) (observe c true) := by
  refine tame_renewLease.launches_bind stable_mayLaunch fun _ =>
    (tame_current _).launches_bind stable_mayLaunch fun _ => ?_
  intro m s h
  show Holds _ _ _ _ (submitJob c >>= _) m s
  rw [holds_bind]
  refine holds_mono (fun r m' s' h' => ?_) (launches_submitJob m s h)
  cases r with
  | error => exact h'
  | ok o => exact tame_afterCall o _ (stable_true (.deliver c)) m' s' h'

/-- The intent that the delivery stores is its own. -/
theorem launches_submit : Launches c (Unlaunched c) (submit c) := by
  intro m s h
  unfold submit withLease heldLease
  rw [holds_bind, holds_bind, holds_get_bind]
  cases hlease : m.lease with
  | none => exact ⟨h.1, trivial⟩
  | some lease =>
    show Holds _ _ _ _ (pure lease) m s
    rw [holds_pure]
    dsimp only
    rw [holds_transaction]
    intro s₁ hr₁ hs₁
    have hquiet := guarantee_of_calm (calm_beginSubmit lease c.submitId) hs₁
    have hfresh := stable_unlaunched _ _ (stable_unlaunched s s₁ h.2 hr₁) hquiet.relies
    refine ⟨.quiet hquiet, ?_⟩
    cases hsubmit : (beginSubmit lease c.submitId).answer s₁ with
    | error => exact ⟨h.1, trivial⟩
    | ok =>
      obtain ⟨s', hrun⟩ := answer_eq_ok.mp hsubmit
      obtain ⟨d, e, hrow, he, hid⟩ := (beginSubmit_ok hs₁.ready hrun).2
      rw [h.1 lease hlease] at hrow
      have hown : OwnIntent c ((beginSubmit lease c.submitId).after s₁) := by
        rw [after_of_ok hrun]
        exact ⟨d, e, hrow, he, hid⟩
      exact launches_observe { m with submitting := true } _ ⟨h.1, hown, hfresh⟩

theorem launches_attendState (job : Job) : Launches c (Unlaunched c) (attendState c job) := by
  unfold attendState
  split
  · exact (tame_withLease calm_settleUnstartedControl).launches stable_unlaunched
  · split
    · exact launches_submit
    · exact tame_observe_inspect.launches stable_unlaunched

theorem launches_attend : Launches c (Unlaunched c) (attend c) := by
  refine (tame_transaction (calm_getJob _)).launches_bind stable_unlaunched fun job => ?_
  cases job with
  | none => exact (tame_pure _).launches stable_unlaunched
  | some job =>
    unfold attendJob
    dsimp only
    split
    · exact (tame_pure _).launches stable_unlaunched
    · exact (tame_silent (silent_orRaiseError _)).launches_bind stable_unlaunched fun _ =>
        (tame_deadlineControl job).launches_bind stable_unlaunched fun job =>
          launches_attendState job

theorem launches_attended : Launches c (Unlaunched c) (attended c) := by
  intro m s h
  unfold attended
  rw [holds_tryCatch, holds_bind, holds_tryCatch]
  refine holds_mono (fun r m' s' h' => ?_) (launches_attend m s h)
  cases r with
  | ok => exact h'
  | error e =>
    have htame : Tame (.deliver c) c (handle e) := tame_handle e
    refine holds_mono (fun r m'' s'' h'' => ?_) (htame _ (stable_true _) m' s' h')
    cases r with
    | ok => exact h''
    | error => exact h''

theorem launches_deliver : Launches c (Unlaunched c) (deliver c) := by
  refine tame_claim.launches_bind stable_unlaunched fun _ => ?_
  intro m s h
  show Holds _ _ _ _ (attended c >>= _) m s
  rw [holds_bind]
  refine holds_mono (fun r m' s' h' => ?_) (launches_attended m s h)
  cases r with
  | error => exact h'
  | ok outcome =>
    exact (tame_release.bind fun _ => tame_silent (silent_orRaiseError outcome)) _
      (stable_true (.deliver c)) m' s' h'

end Launch

/-! ## Every interleaving -/

theorem tame_cancelJob (r : ControlCall) : Tame (.control r) r.delivery (cancelJob r) :=
  tame_claim.bind fun _ => (tame_withLease fun lease => calm_requestControl lease _ _).bind
    fun _ => tame_withLease calm_release

theorem protocol_sound : protocol.Sound Accounted Relies Guarantee fun _ _ _ => True where
  rely_refl c s := (Quietly.refl s).relies
  rely_trans c s₁ s₂ s₃ h₁ h₂ := h₁.trans h₂
  apart_symm c c' h id hid hid' := h id hid' hid
  guar_rely c c' s s' happart _ hg := hg.relies happart
  env_rely c s s' _ h := h.quietly.relies
  guar_inv c s s' hs hg := hs.guarantee hg
  env_inv s s' hs h := hs.quietly h.quietly
  post_stable := fun _ _ _ _ h _ _ => h
  body_holds := by
    intro c s hs hpre
    have hmine (d : DeliveryCall) : Mine d ⟨none, false⟩ := fun _ h => by cases h
    cases c with
    | admitJob r =>
      have htame : Tame (.admitJob r) ⟨"", 0, "", "", .ok (), .ok (), .ok (), .error .cancelled,
          .error .cancelled⟩ (transaction (admitJob r) : Run _) := tame_transaction (calm_admitJob r)
      exact holds_mono (fun _ _ _ _ => trivial)
        (htame (fun _ => True) (stable_true _) ⟨none, false⟩ s ⟨hmine _, trivial⟩)
    | deliver c =>
      exact holds_mono (fun _ _ _ _ => trivial)
        (launches_deliver ⟨none, false⟩ s ⟨hmine c, hpre c.submitId rfl⟩)
    | control r =>
      exact holds_mono (fun _ _ _ _ => trivial)
        (tame_cancelJob r (fun _ => True) (stable_true _) ⟨none, false⟩ s ⟨hmine _, trivial⟩)

/-! ## At most one launch -/

def JobStore.fresh (clock : ℚ) (evident authorized : String → Bool) : JobStore :=
  ⟨clock, ∅, ∅, ∅, ∅, evident, authorized, []⟩

theorem accounted_fresh (clock : ℚ) (evident authorized : String → Bool) :
    Accounted (.fresh clock evident authorized) where
  ready := fun _ _ h => by cases h
  launched := fun _ h => by cases h
  nodup := List.nodup_nil

def launchesOf (j : String) (s : JobStore) : List (String × String) :=
  s.launches.filter fun x => x.1 = j

/-- Two launches of one job would carry one submit id. -/
theorem Accounted.launchesOf_length_le_one {s : JobStore} (h : Accounted s) (j : String) :
    (launchesOf j s).length ≤ 1 := by
  have hnodup : ((launchesOf j s).map Prod.snd).Nodup :=
    h.nodup.sublist (List.filter_sublist.map _)
  have hid : ∀ x ∈ launchesOf j s, ∀ y ∈ launchesOf j s, x.2 = y.2 := by
    intro x hx y hy
    obtain ⟨hx, hxj⟩ := List.mem_filter.mp hx
    obtain ⟨hy, hyj⟩ := List.mem_filter.mp hy
    obtain ⟨d, e, hd, he, hxe⟩ := h.launched x hx
    obtain ⟨d', e', hd', he', hye⟩ := h.launched y hy
    rw [of_decide_eq_true hxj] at hd
    rw [of_decide_eq_true hyj, hd, Option.some.injEq] at hd'
    subst hd'
    rw [he, Option.some.injEq] at he'
    rw [← hxe, ← hye, he']
  match hl : launchesOf j s with
  | [] => exact Nat.zero_le 1
  | [_] => exact le_rfl
  | x :: y :: rest =>
    rw [hl] at hid hnodup
    have hxy := hid x (by simp) y (by simp)
    simp [hxy] at hnodup

theorem Accounted.launchesOf_eq_nil {s : JobStore} (h : Accounted s) {j : String} {d : Delivery}
    (hd : s.delivery.lookup j = some d) (hsubmit : d.submit = none) : launchesOf j s = [] := by
  apply List.filter_eq_nil_iff.mpr
  intro x hx hxj
  obtain ⟨d', e, hd', he, -⟩ := h.launched x hx
  rw [of_decide_eq_true hxj, hd, Option.some.injEq] at hd'
  rw [← hd', hsubmit] at he
  cases he

/-- No run loses a row or takes one back. -/
theorem steps_progress {p p' : Pool Call JobStore (Except JobError Unit × DeliveryMemory)}
    (h : protocol.Good Accounted Relies Guarantee (fun _ _ _ => True) p)
    (hs : protocol.Steps p p') : Progress p.store p'.store :=
  protocol_sound.steps_store .refl (fun _ _ _ h₁ h₂ => h₁.trans h₂)
    (fun c s s' _ hg => by
      cases hg with
      | quiet hq => exact hq.progress
      | launch d _ _ _ heq =>
        subst heq
        exact quietly_logLaunch_progress d)
    (fun s s' _ he => he.quietly.progress) h hs

/-- **At most one launch.**  Whatever deliveries, cancellations, crashes and takeovers led here,
each job was launched at most once.  From here on, a job that is controlled while it is ready is
never launched, and a job that has left `ready` never returns to it. -/
theorem job_launched_at_most_once (clock : ℚ) (evident authorized : String → Bool)
    {p : Pool Call JobStore (Except JobError Unit × DeliveryMemory)}
    (hp : protocol.Steps (Protocol.initial (.fresh clock evident authorized)) p) :
    (∀ j, (launchesOf j p.store).length ≤ 1) ∧
      ∀ p', protocol.Steps p p' → ∀ j d, p.store.delivery.lookup j = some d →
        (d.status = .ready → d.control ≠ none → launchesOf j p'.store = []) ∧
        (d.status ≠ .ready →
          ∃ d', p'.store.delivery.lookup j = some d' ∧ d'.status ≠ .ready) := by
  have hgood := protocol_sound.steps
    (Protocol.good_initial (accounted_fresh clock evident authorized)) hp
  refine ⟨hgood.inv_store.launchesOf_length_le_one, fun p' hp' j d hd => ?_⟩
  have hgood' := protocol_sound.steps hgood hp'
  obtain ⟨d', hd', hleads⟩ := steps_progress hgood hp' j d hd
  constructor
  · intro hready hcontrol
    have hnone := hgood.inv_store.ready j d hd hready
    exact hgood'.inv_store.launchesOf_eq_nil hd' (hleads.barred hcontrol hnone)
  · intro hleft
    exact ⟨d', hd', fun hready => hleft (hleads.ready hready)⟩

def sampleJobId : String := "job_" ++ String.ofList (List.replicate 64 'a')

def sampleAdmission : Admission := ⟨sampleJobId, "request", "controller", some "owner", 100, "digest"⟩

/-- A delivery that never hears from the backend. -/
def sampleDelivery (digit : Char) : DeliveryCall where
  identifier := sampleJobId
  leaseSeconds := 30
  owner := String.ofList (List.replicate 32 digit)
  submitId := String.ofList (List.replicate 32 digit)
  profile := .ok ()
  launchProfile := .ok ()
  controlProfile := .ok ()
  observed := .error .unreachable
  controlled := .error .unreachable

def sampleStart : Pool Call JobStore (Except JobError Unit × DeliveryMemory) :=
  Protocol.initial (.fresh 0 (fun _ => true) fun _ => true)

/-- The job after its admission and a first delivery. -/
def sampleDelivered : Pool Call JobStore (Except JobError Unit × DeliveryMemory) :=
  protocol.ran (protocol.ran sampleStart (.admitJob ⟨sampleAdmission, .ok (), 1⟩))
    (.deliver (sampleDelivery 'b'))

/-- The reply to the first delivery is lost; the second one does not launch. -/
theorem job_launched_at_most_once_redelivered :
    (launchesOf sampleJobId sampleDelivered.store).length = 1 ∧
      (launchesOf sampleJobId
        (protocol.ran sampleDelivered (.deliver (sampleDelivery 'c'))).store).length ≤ 1 ∧
      ∃ d, (protocol.ran sampleDelivered (.deliver (sampleDelivery 'c'))).store.delivery.lookup
        sampleJobId = some d ∧ d.status ≠ .ready := by
  have hadmitted := protocol.steps_ran sampleStart (.admitJob ⟨sampleAdmission, .ok (), 1⟩)
    (fun _ h => by cases h) (fun _ h => by cases h)
  have hfirst := protocol.steps_ran (protocol.ran sampleStart (.admitJob ⟨sampleAdmission, .ok (), 1⟩))
    (.deliver (sampleDelivery 'b'))
    (show ∀ id ∈ (Call.deliver (sampleDelivery 'b')).launchId, id ∉ List.map Prod.snd _ by
      decide +kernel)
    (by simp [protocol, Protocol.ran, Call.launchId, sampleStart, Protocol.initial])
  have hsecond := protocol.steps_ran sampleDelivered (.deliver (sampleDelivery 'c'))
    (show ∀ id ∈ (Call.deliver (sampleDelivery 'c')).launchId, id ∉ List.map Prod.snd _ by
      decide +kernel)
    (by
      intro c hc
      rcases List.mem_cons.mp hc with rfl | hc
      · intro id hid hid'
        exact absurd ((Option.some.inj hid).trans (Option.some.inj hid').symm) (by decide +kernel)
      · rw [List.mem_singleton.mp hc]
        exact fun _ _ h => by cases h)
  have hdelivered := job_launched_at_most_once 0 (fun _ => true) (fun _ => true)
    (hadmitted.trans hfirst)
  have hredelivered := job_launched_at_most_once 0 (fun _ => true) (fun _ => true)
    ((hadmitted.trans hfirst).trans hsecond)
  refine ⟨by decide +kernel, hredelivered.1 _, ?_⟩
  have hrow : ∃ d, sampleDelivered.store.delivery.lookup sampleJobId = some d ∧
      d.status ≠ .ready := by
    have : (sampleDelivered.store.delivery.lookup sampleJobId).any
        (fun d => d.status ≠ .ready) = true := by decide +kernel
    obtain ⟨d, hd, hstatus⟩ := (Option.any_eq_true _ _).mp this
    exact ⟨d, hd, of_decide_eq_true hstatus⟩
  obtain ⟨d, hd, hstatus⟩ := hrow
  exact (hdelivered.2 _ hsecond _ d hd).2 hstatus

end SandboxJobs
