/-
# The evidence of a sandbox job

`get` of the job store checks the rows of a job against its receipts and against each other.  What
the operations of the store write, `get` accepts afterwards, with two exceptions.
`record_original_deadline` does not look at the outcome of a job that has ended: where the reason of
that outcome is the deadline, a proof for another outcome makes the two contradict each other.  And
`request_control` bounds the size of its event, but not that of the receipt, which is larger.

In every run without these two, `get` accepts every job (`sandbox_evidence_closed`).  Receipts only
come, and `get` compares the events with them, so the events never change.
-/
import OpenWorkflowAgent.SandboxJobLaunches

open Transaction

namespace SandboxJobs

section Evidence

variable {s s' : JobStore} {a : Admission} {d d' : Delivery} {i : String} {job : Job}
  {policy : Policy} {receipt : Receipt} {f : Delivery → Delivery}

/-! ## What `get` needs of another store -/

variable {binding : BackendBinding} {outcome : ExecutionResult}

theorem deadlineEvidence_mono {r : Bool}
    (hreceipt : s'.receipts.lookup (a.jobId, .originalDeadline) =
      s.receipts.lookup (a.jobId, .originalDeadline)) (hclock : s.clock ≤ s'.clock)
    (h : deadlineEvidence s a binding outcome = .ok r) :
    deadlineEvidence s' a binding outcome = .ok r := by
  unfold deadlineEvidence at h ⊢
  rw [hreceipt]
  split at h
  · exact h
  · split at h
    · next hproof =>
        obtain ⟨hbelongs, hbinding, houtcome, hdigest, hdeadline, hhex, hdue⟩ := hproof
        rw [← h]
        exact if_pos ⟨hbelongs, hbinding, houtcome, hdigest, hdeadline, hhex, hdue.trans hclock⟩
    · cases h
  · cases h

theorem terminalFits_mono {e : TerminalEvent} (hcontrol : d'.control = d.control)
    (hbackend : d'.backend = d.backend) (hack : d.controlAck.isSome = true → d'.controlAck.isSome = true)
    (hlaunched : e.reason = .notLaunched → d' = d)
    (hevidence : ∀ b o r, e.binding = some b → e.outcome = some o → e.reason = .deadline →
      deadlineEvidence s a b o = .ok r →
        deadlineEvidence s' a b o = .ok r ∨ deadlineEvidence s' a b o = .ok true)
    (h : terminalFits s a d e = true) : terminalFits s' a d' e = true := by
  unfold terminalFits at h ⊢
  by_cases hreason : e.reason = .notLaunched
  · rw [if_pos hreason] at h ⊢
    rw [hlaunched hreason]
    exact h
  · rw [if_neg hreason] at h ⊢
    split at h
    · next b o hb ho =>
        simp only [reasonFits, decide_eq_true_eq, hcontrol, hbackend] at h ⊢
        obtain ⟨⟨hne, hbacked⟩, hrest⟩ := h
        refine ⟨⟨hne, ?_⟩, hrest⟩
        rcases hbacked with hexited | ⟨hdeadline, hproof⟩ | ⟨hproof, hacked, hsame⟩
        · exact .inl hexited
        · exact .inr (.inl ⟨hdeadline, (hevidence b o true hb ho hdeadline hproof).elim id id⟩)
        · by_cases hdeadline : e.reason = .deadline
          · rcases hevidence b o false hb ho hdeadline (hproof hdeadline) with hev | hev
            · exact .inr (.inr ⟨fun _ => hev, hack hacked, hsame⟩)
            · exact .inr (.inl ⟨hdeadline, hev⟩)
          · exact .inr (.inr ⟨fun hd => absurd hd hdeadline, hack hacked, hsame⟩)
    · exact h

theorem deadlineFits_mono (hreceipt : s'.receipts.lookup (a.jobId, .originalDeadline) =
      s.receipts.lookup (a.jobId, .originalDeadline)) (hclock : s.clock ≤ s'.clock)
    (hsubmit : d'.submit = d.submit) (hbackend : d'.backend = d.backend)
    (h : deadlineFits s a d = true) : deadlineFits s' a d' = true := by
  unfold deadlineFits at h ⊢
  rw [hreceipt]
  split at h
  · rfl
  · simp only [decide_eq_true_eq, hsubmit, hbackend] at h ⊢
    exact ⟨h.1, deadlineEvidence_mono hreceipt hclock h.2.1, h.2.2⟩
  · exact h

theorem consistent_mono (hreceipts : ∀ p, s'.receipts.lookup (a.jobId, p) =
      s.receipts.lookup (a.jobId, p)) (hclock : s.clock ≤ s'.clock) (hevident : s'.evident = s.evident)
    (h : consistent s a d = true) : consistent s' a d = true := by
  simp only [consistent, eventsAgree, decide_eq_true_eq, hreceipts, hevident] at h ⊢
  obtain ⟨hev, hadmission, hevents, hsubmit, hcontrol, hack, hdeadline, hstatus, haccepted, hbackend,
    hterminal, hsizes⟩ := h
  refine ⟨hev, hadmission, hevents, hsubmit, hcontrol, hack,
    deadlineFits_mono (hreceipts _) hclock rfl rfl hdeadline, hstatus, haccepted, hbackend, ?_, hsizes⟩
  rw [Option.all_eq_true] at hterminal ⊢
  exact fun e he => terminalFits_mono rfl rfl id (fun _ => rfl)
    (fun b o r _ _ _ hr => .inl (deadlineEvidence_mono (hreceipts _) hclock hr)) (hterminal e he)

/-! ## Operations on one job -/

/-- The store with an event of a job: its receipt, and the row as the event leaves it. -/
def JobStore.noted (s : JobStore) (i : String) (policy : Policy) (receipt : Receipt)
    (f : Delivery → Delivery) : JobStore :=
  { s with
    receipts := s.receipts.insertNew (i, policy) receipt
    delivery := s.delivery.updateWhere i (fun _ => true) f }

/-- A receipt and a change of the row; a receipt that is there already is the same. -/
theorem noted_of_run {s₁ : JobStore} {u v : Unit}
    (hreceipt : (insertReceipt i policy receipt).run s = .ok (u, s₁))
    (hupdate : (updateDelivery i f).run s₁ = .ok (v, s')) :
    s' = s.noted i policy receipt f ∧
      ∀ r, s.receipts.lookup (i, policy) = some r → r = receipt := by
  obtain ⟨rfl, hsame⟩ := insertReceipt_ok hreceipt
  rw [updateDelivery, write_eq_ok] at hupdate
  exact ⟨hupdate.symm, hsame⟩

/-- An operation on one job: nothing of another job changes, no receipt is taken back, and `get`
accepts the job. -/
structure Touches (s s' : JobStore) (i : String) : Prop where
  jobs : ∀ j, j ≠ i → s'.jobs.lookup j = s.jobs.lookup j
  delivery : ∀ j, j ≠ i → s'.delivery.lookup j = s.delivery.lookup j
  receipts : ∀ j p, j ≠ i → s'.receipts.lookup (j, p) = s.receipts.lookup (j, p)
  kept : ∀ k r, s.receipts.lookup k = some r → s'.receipts.lookup k = some r
  rest : s'.clock = s.clock ∧ s'.evident = s.evident ∧ s'.ownership = s.ownership
  accepted : ∃ job, recordOf s' i = .ok (some job)

theorem Touches.noted (h : ∃ job, recordOf (s.noted i policy receipt f) i = .ok (some job)) :
    Touches s (s.noted i policy receipt f) i where
  jobs _ _ := rfl
  delivery _ hj := Table.lookup_updateWhere_ne hj
  receipts _ _ hj := Table.lookup_insertNew_ne fun heq => hj (congrArg Prod.fst heq)
  kept _ _ hr := Table.lookup_insertNew_of_some hr
  rest := ⟨rfl, rfl, rfl⟩
  accepted := h

theorem recordOf_eq_ok (hid : isJobId i = true) (hjobs : s.jobs.lookup i = some a)
    (hdelivery : s.delivery.lookup i = some d) (hsame : a.jobId = i)
    (h : consistent s a d = true) : recordOf s i = .ok (some ⟨a, d⟩) := by
  unfold recordOf
  rw [if_neg (by simp [hid]), hjobs, hdelivery]
  exact if_pos ⟨hsame, h⟩

theorem recordOf_noted (hfound : recordOf s i = .ok (some job))
    (h : consistent (s.noted i policy receipt f) job.admission (f job.delivery) = true) :
    recordOf (s.noted i policy receipt f) i = .ok (some ⟨job.admission, f job.delivery⟩) := by
  obtain ⟨hid, hjobs, hdelivery, hsame, -⟩ := recordOf_eq_some hfound
  refine recordOf_eq_ok hid hjobs ?_ hsame h
  show (s.delivery.updateWhere _ _ _).lookup _ = _
  rw [Table.lookup_updateWhere_self, hdelivery]
  rfl

theorem lookup_noted (hsame : ∀ r, s.receipts.lookup (i, policy) = some r → r = receipt) (p : Policy) :
    (s.noted i policy receipt f).receipts.lookup (i, p) =
      if p = policy then some receipt else s.receipts.lookup (i, p) := by
  split
  · next hp =>
      subst hp
      cases hstored : s.receipts.lookup (i, p) with
      | none => exact Table.lookup_insertNew_self_of_none hstored
      | some r =>
        rw [← hsame r hstored]
        exact Table.lookup_insertNew_of_some hstored
  · next hp => exact Table.lookup_insertNew_ne fun heq => hp (congrArg Prod.snd heq)

/-- Every job is accepted by `get`; the owners of jobs are those of claims. -/
structure Accepts (s : JobStore) : Prop where
  jobs : ∀ j, (∃ job, recordOf s j = .ok (some job)) ∨
    (s.jobs.lookup j = none ∧ s.delivery.lookup j = none)
  owners : ∀ j o, s.ownership.lookup j = some o → isUuidHex o.owner = true ∧ 1 ≤ o.generation

/-- Time goes on, and no table that `get` reads changes. -/
theorem Accepts.jobs_of_clock (h : Accepts s) (hjobs : s'.jobs = s.jobs)
    (hdelivery : s'.delivery = s.delivery) (hreceipts : s'.receipts = s.receipts)
    (hevident : s'.evident = s.evident) (hclock : s.clock ≤ s'.clock) (j : String) :
    (∃ job, recordOf s' j = .ok (some job)) ∨
      (s'.jobs.lookup j = none ∧ s'.delivery.lookup j = none) := by
  rw [hjobs, hdelivery]
  rcases h.jobs j with ⟨job, hjob⟩ | hnone
  · obtain ⟨hid, hjob, hrow, hsame, hc⟩ := recordOf_eq_some hjob
    exact .inl ⟨job, recordOf_eq_ok hid (hjobs ▸ hjob) (hdelivery ▸ hrow) hsame
      (consistent_mono (fun _ => by rw [hreceipts]) hclock hevident hc)⟩
  · exact .inr hnone

/-- The evidence is accepted afterwards, and no job and no receipt is taken back. -/
structure Advances (s s' : JobStore) : Prop where
  accepts : Accepts s'
  rows : ∀ j, s.delivery.lookup j ≠ none → s'.delivery.lookup j ≠ none
  kept : ∀ k r, s.receipts.lookup k = some r → s'.receipts.lookup k = some r

theorem Accepts.advances_refl (h : Accepts s) : Advances s s := ⟨h, fun _ hj => hj, fun _ _ hr => hr⟩

theorem Touches.advances (ht : Touches s s' i) (h : Accepts s) : Advances s s' := by
  obtain ⟨job', hjob'⟩ := ht.accepted
  refine ⟨⟨fun j => ?_, by rw [ht.rest.2.2]; exact h.owners⟩, fun j hrow => ?_, ht.kept⟩ <;>
    by_cases hj : j = i
  · subst hj
    exact .inl ht.accepted
  · rcases h.jobs j with ⟨job, hjob⟩ | ⟨hjobs, hrow⟩
    · obtain ⟨hid, hjobs, hrow, hsame, hc⟩ := recordOf_eq_some hjob
      refine .inl ⟨job, recordOf_eq_ok hid ((ht.jobs j hj).trans hjobs)
        ((ht.delivery j hj).trans hrow) hsame ?_⟩
      exact consistent_mono (fun p => by rw [hsame]; exact ht.receipts j p hj) ht.rest.1.ge
        ht.rest.2.1 hc
    · exact .inr ⟨(ht.jobs j hj).trans hjobs, (ht.delivery j hj).trans hrow⟩
  · rw [hj, (recordOf_eq_some hjob').2.2.1]
    exact Option.some_ne_none _
  · rw [ht.delivery j hj]
    exact hrow

/-- The common beginning of the operations under a lease. -/
theorem underLease_eq_ok {α : Type} {lease : JobLease} {g : Job → JobTransaction α}
    {r : α × JobStore} :
    (do fence lease
        let job ← owned lease
        g job).run s = .ok r ↔
      s.holds lease = true ∧ ∃ job, recordOf s lease.jobId = .ok (some job) ∧
        job.admission.digest = lease.admissionDigest ∧ s.authorized lease.jobId = true ∧
        (g job).run s = .ok r := by
  simp only [fence, owned, requireJob, getJob, authority, run_eq_ok]
  constructor
  · rintro ⟨hlive, job, _, ⟨_, _, ⟨_, hfound, rfl, rfl⟩, hdigest, hauthorized, rfl, rfl⟩, hrest⟩
    exact ⟨by simpa using hlive, _, hfound, by simpa using hdigest, by simpa using hauthorized, hrest⟩
  · rintro ⟨hlive, job, hfound, hdigest, hauthorized, hrest⟩
    simp [hlive, hfound, hdigest, hauthorized, hrest]

/-! ## The operations without a last look -/

variable {lease : JobLease} {u : Unit}

/-- A job that is ready and not controlled is as it was admitted. -/
theorem admitted_of_ready (hc : consistent s a d = true) (hready : d.status = .ready)
    (hcontrol : d.control = none) : d = .admitted ∧
      ∀ p, s.receipts.lookup (a.jobId, p) = if p = .admission then some (.admission a) else none := by
  simp only [consistent, eventsAgree, decide_eq_true_eq] at hc
  obtain ⟨-, hadmission, ⟨hsubmit, hbackend, hterminal, hcontrolled, hack, -⟩, -, -, hacked, hdeadline,
    hstatus, -⟩ := hc
  obtain ⟨status, submit, backend, terminal, uncertainty, control, ack⟩ := d
  obtain rfl : control = none := hcontrol
  obtain rfl : status = .ready := hready
  obtain rfl : ack = none := by
    cases ack with
    | none => rfl
    | some e => simp [ackValid] at hacked
  simp [statusFits] at hstatus
  obtain ⟨⟨rfl, rfl, rfl, rfl⟩, -⟩ := hstatus
  refine ⟨rfl, fun p => ?_⟩
  cases p with
  | originalDeadline =>
    unfold deadlineFits at hdeadline
    split at hdeadline
    · assumption
    · simp at hdeadline
    · cases hdeadline
  | _ => simp_all

theorem consistent_submitted {e : Stamped SubmitEvent} (hc : consistent s a d = true)
    (hready : d.status = .ready) (hcontrol : d.control = none) (hevident : s'.evident = s.evident)
    (hlookup : ∀ p, s'.receipts.lookup (a.jobId, p) =
      if p = .submit then some (.submit e) else s.receipts.lookup (a.jobId, p))
    (hbelongs : e.belongs a = true) (hvalid : submitValid a e.value = true) :
    consistent s' a { d with submit := some e, status := .submitting } = true := by
  obtain ⟨rfl, hreceipts⟩ := admitted_of_ready hc hready hcontrol
  simp only [consistent, decide_eq_true_eq] at hc
  simp [consistent, eventsAgree, deadlineFits, hlookup, hreceipts, Delivery.admitted, statusFits,
    hevident, hc.1, hbelongs, hvalid]

theorem beginSubmit_advances (h : Accepts s) {submitId : String} (hdrawn : isUuidHex submitId = true)
    (hrun : (beginSubmit lease submitId).run s = .ok (u, s')) : Advances s s' := by
  rw [beginSubmit, underLease_eq_ok] at hrun
  obtain ⟨hlive, job, hfound, -, -, hrun⟩ := hrun
  simp only [run_eq_ok] at hrun
  obtain ⟨hready, -, _, hreceipt, hupdate⟩ := hrun
  obtain ⟨rfl, hsame⟩ := noted_of_run hreceipt hupdate
  obtain ⟨-, -, -, hid, hc⟩ := recordOf_eq_some hfound
  rw [not_or, not_not, not_not] at hready
  -- the owner of the intent is the one of a claim
  obtain ⟨o, ho, hholds⟩ := (Option.any_eq_true _ _).mp hlive
  obtain ⟨-, howner, hgeneration, -⟩ := of_decide_eq_true hholds
  obtain ⟨hhex, hpos⟩ := h.owners _ _ ho
  refine (Touches.noted ⟨_, recordOf_noted hfound ?_⟩).advances h
  rw [← hid] at hsame ⊢
  refine consistent_submitted hc hready.1 hready.2 rfl (lookup_noted hsame) ?_ ?_
  · simp [Stamped.belongs, stamp]
  · simp [submitValid, stamp, hdrawn, ← howner, hhex, ← hgeneration, hpos]

theorem terminal_eq_none (hc : consistent s a d = true) (hstatus : d.status ≠ .terminal) :
    d.terminal = none := by
  simp only [consistent, decide_eq_true_eq] at hc
  have hfits := hc.2.2.2.2.2.2.2.1
  simp [statusFits, hstatus] at hfits
  exact hfits.2.2.1

theorem consistent_uncertain (reason : Uncertainty) (hc : consistent s a d = true)
    (hready : d.status ≠ .ready) (hstatus : d.status ≠ .terminal) :
    consistent s a { d with status := .uncertain, uncertainty := some reason } = true := by
  have hnone := terminal_eq_none hc hstatus
  simp only [consistent, eventsAgree, decide_eq_true_eq] at hc ⊢
  obtain ⟨hevident, hadmission, hevents, hsubmit, hcontrol, hack, hdeadline, hfits, -, hbackend, -,
    hsize, -⟩ := hc
  refine ⟨hevident, hadmission, hevents, hsubmit, hcontrol, hack,
    deadlineFits_mono rfl le_rfl rfl rfl hdeadline, ?_, by simp, hbackend, by simp [hnone], hsize,
    by simp [hnone]⟩
  simp [statusFits, hready, hstatus] at hfits
  simp [statusFits, hnone, hfits.1]

theorem markUncertain_advances (h : Accepts s) {reason : Uncertainty}
    (hrun : (markUncertain lease reason).run s = .ok (u, s')) : Advances s s' := by
  rw [markUncertain, underLease_eq_ok] at hrun
  obtain ⟨-, job, hfound, -, -, hrun⟩ := hrun
  simp only [updateDelivery, run_eq_ok] at hrun
  obtain ⟨hstatus, rfl⟩ := hrun
  obtain ⟨hjob, hjobs, hdelivery, hid, hc⟩ := recordOf_eq_some hfound
  rw [not_or] at hstatus
  have hlookup : (s.delivery.updateWhere lease.jobId (fun _ => true) fun d =>
      { d with status := .uncertain, uncertainty := some reason }).lookup lease.jobId =
        some { job.delivery with status := .uncertain, uncertainty := some reason } := by
    rw [Table.lookup_updateWhere_self, hdelivery]
    rfl
  refine Touches.advances (i := lease.jobId) ⟨fun _ _ => rfl,
    fun _ hj => Table.lookup_updateWhere_ne hj, fun _ _ _ => rfl, fun _ _ hr => hr, ⟨rfl, rfl, rfl⟩,
    _, recordOf_eq_ok hjob hjobs hlookup hid ?_⟩ h
  exact consistent_mono (fun _ => rfl) le_rfl rfl (consistent_uncertain reason hc hstatus.1 hstatus.2)

theorem consistent_controlled {e : Stamped ControlEvent} (hc : consistent s a d = true)
    (hstatus : d.status ≠ .terminal) (hnone : d.control = none) (hevident : s'.evident = s.evident)
    (hclock : s'.clock = s.clock)
    (hlookup : ∀ p, s'.receipts.lookup (a.jobId, p) =
      if p = .control then some (.control e) else s.receipts.lookup (a.jobId, p))
    (hbelongs : e.belongs a = true) (hvalid : controlValid a e.value = true)
    (hsize : controlSize e ≤ maxBytes) :
    consistent s' a { d with control := some e } = true := by
  have hterminal := terminal_eq_none hc hstatus
  simp only [consistent, eventsAgree, decide_eq_true_eq] at hc ⊢
  obtain ⟨hev, hadmission, ⟨hsubmitted, hbackended, hended, -, hacked, hbelong⟩, hsubmit, -, hack,
    hdeadline, hfits, haccepted, hbackend, -⟩ := hc
  have hunacked : d.controlAck = none := by
    cases hd : d.controlAck with
    | none => rfl
    | some e => simp [hd, ackValid, hnone] at hack
  refine ⟨hevident ▸ hev, by simpa [hlookup] using hadmission, ?_, hsubmit, by simpa using hvalid,
    by simp [hunacked], deadlineFits_mono (by simp [hlookup]) hclock.ge rfl rfl hdeadline, hfits,
    haccepted, hbackend, by simp [hterminal], by simpa using hsize, by simp [hterminal]⟩
  simp [hlookup, hsubmitted, hbackended, hended, hacked, hbelong, hbelongs]

theorem requestControl_advances (h : Accepts s) {reason : ControlReason} {principal : Option String}
    (hsize : ∀ job, recordOf s lease.jobId = .ok (some job) →
      controlSize (stamp job ⟨reason, principal, 1⟩) ≤ maxBytes)
    (hrun : (requestControl lease reason principal).run s = .ok (u, s')) : Advances s s' := by
  rw [requestControl, underLease_eq_ok] at hrun
  obtain ⟨-, job, hfound, -, -, hrun⟩ := hrun
  simp only [run_eq_ok] at hrun
  obtain ⟨hallowed, hrun⟩ := hrun
  obtain ⟨-, -, -, hid, hc⟩ := recordOf_eq_some hfound
  unfold storeControl at hrun
  split at hrun
  · rw [raiseIf_eq_ok] at hrun
    rw [← hrun.2]
    exact h.advances_refl
  · next hnone =>
      simp only [run_eq_ok] at hrun
      obtain ⟨hstatus, -, _, hreceipt, hupdate⟩ := hrun
      obtain ⟨rfl, hsame⟩ := noted_of_run hreceipt hupdate
      rw [← hid] at hfound
      refine (Touches.noted ⟨_, recordOf_noted hfound ?_⟩).advances h
      refine consistent_controlled hc hstatus hnone rfl rfl (lookup_noted hsame)
        (by simp [Stamped.belongs, stamp]) ?_ (hsize job (hid ▸ hfound))
      cases reason with
      | deadline => simp [controlValid, stamp]
      | cancel =>
        simp only [controlAllowed] at hallowed
        split at hallowed
        · cases hallowed
        · next hprincipal => simpa [controlValid, stamp] using hprincipal

theorem consistent_acked {e : Stamped AckEvent} (hc : consistent s a d = true)
    (hevident : s'.evident = s.evident) (hclock : s'.clock = s.clock)
    (hlookup : ∀ p, s'.receipts.lookup (a.jobId, p) =
      if p = .controlAck then some (.controlAck e) else s.receipts.lookup (a.jobId, p))
    (hbelongs : e.belongs a = true) (hvalid : ackValid d e.value = true) :
    consistent s' a { d with controlAck := some e } = true := by
  have hbackend : d.backend ≠ none := by
    intro hnone
    unfold ackValid at hvalid
    rw [hnone] at hvalid
    cases hd : d.control <;> simp [hd] at hvalid
  simp only [consistent, eventsAgree, decide_eq_true_eq] at hc ⊢
  obtain ⟨hev, hadmission, ⟨hsubmitted, hbackended, hended, hcontrolled, -, hbelong⟩, hsubmit, hcontrol,
    -, hdeadline, hfits, haccepted, hbinds, hterminal, hsizes⟩ := hc
  refine ⟨hevident ▸ hev, by simpa [hlookup] using hadmission, ?_, hsubmit, hcontrol,
    hvalid, deadlineFits_mono (by simp [hlookup]) hclock.ge rfl rfl hdeadline, hfits, haccepted,
    hbinds, ?_, hsizes⟩
  · simp [hlookup, hsubmitted, hbackended, hended, hcontrolled, hbelong, hbelongs]
  · rw [Option.all_eq_true] at hterminal ⊢
    intro t ht
    refine terminalFits_mono (d := d) rfl rfl (fun _ => rfl) (fun hreason => ?_)
      (fun b o r _ _ _ hr => .inl (deadlineEvidence_mono (by simp [hlookup]) hclock.ge hr))
      (hterminal t ht)
    -- a job that was never launched has no backend
    exfalso
    have hfit := hterminal t ht
    simp [terminalFits, hreason] at hfit
    simp only [statusFits, hfit.2.2.2.2, decide_eq_true_eq] at hfits
    rcases hfits with ⟨hready, hstarted, -⟩ | ⟨-, -, -, hnone, -⟩
    · have hstatus : d.status = .ready := by simpa using hstarted
      exact hready ⟨hstatus, .inr (.inl (Option.isSome_iff_ne_none.mpr hbackend))⟩
    · exact hbackend hnone

theorem acknowledgeControl_advances (h : Accepts s) {generation : ℕ}
    (hrun : (acknowledgeControl lease binding generation).run s = .ok (u, s')) : Advances s s' := by
  rw [acknowledgeControl, underLease_eq_ok] at hrun
  obtain ⟨-, job, hfound, -, -, hrun⟩ := hrun
  simp only [run_eq_ok] at hrun
  obtain ⟨control, hcontrol, hsame, _, hreceipt, hupdate⟩ := hrun
  obtain ⟨rfl, hsame'⟩ := noted_of_run hreceipt hupdate
  obtain ⟨-, -, -, hid, hc⟩ := recordOf_eq_some hfound
  refine (Touches.noted ⟨_, recordOf_noted hfound ?_⟩).advances h
  rw [← hid] at hsame' ⊢
  refine consistent_acked hc rfl rfl (lookup_noted hsame') (by simp [Stamped.belongs, stamp]) ?_
  cases hbackend : job.delivery.backend with
  | none => simp [hbackend] at hsame
  | some b =>
    simp [hbackend] at hsame
    simp [ackValid, stamp, hcontrol, hbackend, hsame]

/-- A proof of the original deadline, for the outcome that the job has, if it ended with it. -/
theorem consistent_proved {e : Stamped DeadlineEvent} (hc : consistent s a d = true)
    (hevident : s'.evident = s.evident)
    (hlookup : ∀ p, s'.receipts.lookup (a.jobId, p) =
      if p = .originalDeadline then some (.originalDeadline e) else s.receipts.lookup (a.jobId, p))
    (hproof : deadlineEvidence s' a e.value.binding e.value.outcome = .ok true)
    (hsubmit : d.submit ≠ none) (hbinds : bindingAgrees a e.value.binding = true)
    (hvalid : outcomeValid a.jobId e.value.outcome = true)
    (hbackend : (d.backend.all fun b => b.value = e.value.binding) = true)
    (hsame : ∀ t, d.terminal = some t → t.value.reason = .deadline →
      t.value.binding = some e.value.binding ∧ t.value.outcome = some e.value.outcome) :
    consistent s' a d = true := by
  simp only [consistent, eventsAgree, decide_eq_true_eq] at hc ⊢
  obtain ⟨hev, hadmission, hevents, hsubmits, hcontrol, hack, -, hfits, haccepted, hbackends, hterminal,
    hsizes⟩ := hc
  refine ⟨hevident ▸ hev, by simpa [hlookup] using hadmission, by simpa [hlookup] using hevents,
    hsubmits, hcontrol, hack, ?_, hfits, haccepted, hbackends, ?_, hsizes⟩
  · simp [deadlineFits, hlookup, Option.isSome_iff_ne_none, hsubmit, hproof, hbinds, hvalid, hbackend]
  · rw [Option.all_eq_true] at hterminal ⊢
    intro t ht
    refine terminalFits_mono rfl rfl id (fun _ => rfl) (fun b o r hb ho hreason _ => .inr ?_)
      (hterminal t ht)
    obtain ⟨hb', ho'⟩ := hsame t ht hreason
    rw [← Option.some.inj (hb'.symm.trans hb), ← Option.some.inj (ho'.symm.trans ho)]
    exact hproof

theorem recordOriginalDeadline_advances (h : Accepts s)
    {proof : DeadlineProof}
    (hsame : ∀ d t, s.delivery.lookup lease.jobId = some d → d.terminal = some t →
      t.value.reason = .deadline → t.value.binding = some binding ∧ t.value.outcome = some outcome)
    (hrun : (recordOriginalDeadline lease binding outcome proof).run s = .ok (u, s')) :
    Advances s s' := by
  rw [recordOriginalDeadline, bind_eq_ok] at hrun
  obtain ⟨_, _, hraised, hrun⟩ := hrun
  obtain ⟨hvalid, rfl⟩ := raiseIf_eq_ok.mp hraised
  rw [underLease_eq_ok] at hrun
  obtain ⟨-, job, hfound, -, -, hrun⟩ := hrun
  simp only [run_eq_ok] at hrun
  obtain ⟨hcond, _, hreceipt, ok, hproof, -, rfl⟩ := hrun
  obtain ⟨rfl, hstored⟩ := insertReceipt_ok hreceipt
  obtain ⟨hjob, hjobs, hdelivery, hid, hc⟩ := recordOf_eq_some hfound
  simp only [not_or, not_not, Bool.not_eq_false] at hcond
  obtain ⟨hbinds, hsubmit, -, -, -, hbackend⟩ := hcond
  have hlookup : ∀ p, (s.receipts.insertNew (lease.jobId, .originalDeadline)
      (.originalDeadline (stamp job ⟨binding, outcome, proof⟩))).lookup (job.admission.jobId, p) =
        if p = .originalDeadline then some (.originalDeadline (stamp job ⟨binding, outcome, proof⟩))
        else s.receipts.lookup (job.admission.jobId, p) := by
    rw [hid]
    exact lookup_noted (f := id) hstored
  have htrue : ok = true := by
    simp only [deadlineEvidence, hlookup, if_true] at hproof
    split at hproof
    · exact (Except.ok.inj hproof).symm
    · cases hproof
  refine Touches.advances (i := lease.jobId) ⟨fun _ _ => rfl, fun _ _ => rfl,
    fun _ _ hj => Table.lookup_insertNew_ne fun heq => hj (congrArg Prod.fst heq),
    fun _ _ hr => Table.lookup_insertNew_of_some hr, ⟨rfl, rfl, rfl⟩, _,
    recordOf_eq_ok hjob hjobs hdelivery hid ?_⟩ h
  refine consistent_proved hc rfl hlookup (htrue ▸ hproof) hsubmit hbinds ?_ ?_
    (fun t ht => hsame _ t hdelivery ht)
  · rw [hid]
    simpa [stamp] using hvalid
  · cases hb : job.delivery.backend <;> simp_all [stamp]

/-! ## The operations that look again -/

theorem exists_of_getJob {r : Option Job} (hjobs : s.jobs.lookup i ≠ none)
    (h : recordOf s i = .ok r) : ∃ job, recordOf s i = .ok (some job) := by
  cases r with
  | some job => exact ⟨job, h⟩
  | none =>
    unfold recordOf at h
    split at h
    · cases h
    · split at h
      · contradiction
      · split at h <;> cases h
      · cases h

theorem recordAccepted_advances (h : Accepts s)
    (hrun : (recordAccepted lease binding).run s = .ok (u, s')) : Advances s s' := by
  rw [recordAccepted, underLease_eq_ok] at hrun
  obtain ⟨-, job, hfound, -, -, hrun⟩ := hrun
  simp only [run_eq_ok] at hrun
  obtain ⟨-, -, _, hreceipt, _, hupdate, _, _, hget, -, rfl⟩ := hrun
  obtain ⟨rfl, -⟩ := noted_of_run hreceipt hupdate
  obtain ⟨rfl, hrecord⟩ := getJob_ok hget
  obtain ⟨-, hjobs, -⟩ := recordOf_eq_some hfound
  exact (Touches.noted (exists_of_getJob (hjobs ▸ Option.some_ne_none _) hrecord)).advances h

theorem settleUnstartedControl_advances (h : Accepts s)
    (hrun : (settleUnstartedControl lease).run s = .ok (u, s')) : Advances s s' := by
  rw [settleUnstartedControl, underLease_eq_ok] at hrun
  obtain ⟨-, job, -, -, -, hrun⟩ := hrun
  simp only [requireJob, run_eq_ok] at hrun
  obtain ⟨-, _, hreceipt, _, hupdate, _, _, ⟨_, _, hget, rfl, rfl⟩, -, rfl⟩ := hrun
  obtain ⟨rfl, -⟩ := noted_of_run hreceipt hupdate
  obtain ⟨rfl, hrecord⟩ := getJob_ok hget
  exact (Touches.noted ⟨_, hrecord⟩).advances h

theorem recordTerminal_advances (h : Accepts s)
    {reason : TerminalReason}
    (hrun : (recordTerminal lease binding outcome reason).run s = .ok (u, s')) : Advances s s' := by
  rw [recordTerminal, bind_eq_ok] at hrun
  obtain ⟨_, _, hraised, hrun⟩ := hrun
  obtain ⟨-, rfl⟩ := raiseIf_eq_ok.mp hraised
  rw [underLease_eq_ok] at hrun
  obtain ⟨-, job, -, -, -, hrun⟩ := hrun
  simp only [run_eq_ok] at hrun
  obtain ⟨-, -, hrun⟩ := hrun
  unfold storeTerminal at hrun
  split at hrun
  · rw [raiseIf_eq_ok] at hrun
    rw [← hrun.2]
    exact h.advances_refl
  · simp only [requireJob, run_eq_ok] at hrun
    obtain ⟨-, -, _, hreceipt, _, hupdate, _, _, ⟨_, _, hget, rfl, rfl⟩, -, rfl⟩ := hrun
    obtain ⟨rfl, -⟩ := noted_of_run hreceipt hupdate
    obtain ⟨rfl, hrecord⟩ := getJob_ok hget
    exact (Touches.noted ⟨_, hrecord⟩).advances h

theorem admitJob_advances (h : Accepts s) {r : AdmissionRequest}
    (hrun : (admitJob r).run s = .ok (u, s')) : Advances s s' := by
  simp only [admitJob, run_eq_ok] at hrun
  obtain ⟨-, prior, _, hget, hrun⟩ := hrun
  obtain ⟨rfl, -⟩ := getJob_ok hget
  cases prior with
  | some prior =>
    rw [admitNew, raiseIf_eq_ok] at hrun
    rw [← hrun.2]
    exact h.advances_refl
  | none =>
    simp only [admitNew, insertJob, requireJob, run_eq_ok, not_not] at hrun
    obtain ⟨hfree, -, _, _, ⟨_, _, hget, rfl, rfl⟩, -, rfl⟩ := hrun
    obtain ⟨rfl, hrecord⟩ := getJob_ok hget
    refine Touches.advances ⟨fun _ hj => Table.lookup_put_ne hj, fun _ hj => Table.lookup_put_ne hj,
      fun _ _ hj => Table.lookup_put_ne fun heq => hj (congrArg Prod.fst heq), fun k r' hr => ?_,
      ⟨rfl, rfl, rfl⟩, _, hrecord⟩ h
    refine (Table.lookup_put_ne ?_).trans hr
    rintro rfl
    rw [hfree] at hr
    cases hr

theorem claimJob_advances (h : Accepts s) {owner : String} {seconds : ℚ} {lease : JobLease}
    (hdrawn : isUuidHex owner = true)
    (hrun : (claimJob job owner seconds).run s = .ok (lease, s')) : Advances s s' := by
  simp only [claimJob, setOwnership, requireJob, authority, run_eq_ok] at hrun
  obtain ⟨_, _, ⟨_, _, hget, rfl, rfl⟩, -, -, o, hclaimed, -, rfl⟩ := hrun
  obtain ⟨rfl, -⟩ := getJob_ok hget
  refine ⟨⟨fun j => ?_, fun j o' ho' => ?_⟩, fun _ hj => hj, fun _ _ hr => hr⟩
  · exact h.jobs_of_clock rfl rfl rfl rfl le_rfl j
  · change (Table.put _ _ _).lookup j = some o' at ho'
    rw [Table.lookup_put] at ho'
    split at ho'
    · obtain rfl := Option.some.inj ho'
      unfold claimed at hclaimed
      split at hclaimed
      · rw [← Option.some.inj hclaimed]
        exact ⟨hdrawn, le_rfl⟩
      · split at hclaimed
        · rw [← Option.some.inj hclaimed]
          exact ⟨hdrawn, Nat.le_add_left 1 _⟩
        · cases hclaimed
    · exact h.owners j o' ho'

end Evidence

/-! ## Runs -/

inductive Operation where
  | admitJob (r : AdmissionRequest)
  | claim (job : Job) (owner : String) (seconds : ℚ)
  | beginSubmit (lease : JobLease) (submitId : String)
  | recordAccepted (lease : JobLease) (binding : BackendBinding)
  | markUncertain (lease : JobLease) (reason : Uncertainty)
  | requestControl (lease : JobLease) (reason : ControlReason) (principal : Option String)
  | acknowledgeControl (lease : JobLease) (binding : BackendBinding) (generation : ℕ)
  | settleUnstartedControl (lease : JobLease)
  | recordOriginalDeadline (lease : JobLease) (binding : BackendBinding) (outcome : ExecutionResult)
      (proof : DeadlineProof)
  | recordTerminal (lease : JobLease) (binding : BackendBinding) (outcome : ExecutionResult)
      (reason : TerminalReason)

namespace Operation

def transaction : Operation → JobTransaction Unit
  | .admitJob r => SandboxJobs.admitJob r
  | .claim job owner seconds => do
    let _ ← claimJob job owner seconds
    pure ()
  | .beginSubmit lease submitId => SandboxJobs.beginSubmit lease submitId
  | .recordAccepted lease binding => SandboxJobs.recordAccepted lease binding
  | .markUncertain lease reason => SandboxJobs.markUncertain lease reason
  | .requestControl lease reason principal => SandboxJobs.requestControl lease reason principal
  | .acknowledgeControl lease binding n => SandboxJobs.acknowledgeControl lease binding n
  | .settleUnstartedControl lease => SandboxJobs.settleUnstartedControl lease
  | .recordOriginalDeadline lease binding outcome proof =>
    SandboxJobs.recordOriginalDeadline lease binding outcome proof
  | .recordTerminal lease binding outcome reason =>
    SandboxJobs.recordTerminal lease binding outcome reason

/-- The ids of an operation are texts that `uuid4` draws. -/
def Drawn : Operation → Prop
  | .claim _ owner _ => isUuidHex owner = true
  | .beginSubmit _ submitId => isUuidHex submitId = true
  | _ => True

/-- The receipt of a control is short enough to be read; and the original deadline of a job that
ended with the deadline is proved for the outcome it ended with. -/
def Orderly (s : JobStore) : Operation → Prop
  | .requestControl lease reason principal => ∀ a, s.jobs.lookup lease.jobId = some a →
    controlSize ⟨a.jobId, a.digest, reason, principal, 1⟩ ≤ maxBytes
  | .recordOriginalDeadline lease binding outcome _ => ∀ d e,
    s.delivery.lookup lease.jobId = some d → d.terminal = some e → e.value.reason = .deadline →
      e.value.binding = some binding ∧ e.value.outcome = some outcome
  | _ => True

end Operation

/-- One of the allowed operations, committed or rolled back; or time goes on, and the authority of
the deployment changes. -/
inductive Step (allowed : JobStore → Operation → Prop) (s : JobStore) : JobStore → Prop
  | operation (op : Operation) (hdrawn : op.Drawn) (hallowed : allowed s op) :
    Step allowed s (op.transaction.after s)
  | elsewhere (clock : ℚ) (authorized : String → Bool) (h : s.clock ≤ clock) :
    Step allowed s { s with clock := clock, authorized := authorized }

def Steps (allowed : JobStore → Operation → Prop) : JobStore → JobStore → Prop :=
  Relation.ReflTransGen (Step allowed)

section Runs

variable {s s' : JobStore}

theorem Step.advances (hs : Step Operation.Orderly s s') (h : Accepts s) : Advances s s' := by
  cases hs with
  | elsewhere clock authorized hclock =>
    exact ⟨⟨h.jobs_of_clock rfl rfl rfl rfl hclock, h.owners⟩, fun _ hj => hj, fun _ _ hr => hr⟩
  | operation op hdrawn horderly =>
    refine after_induction (P := Advances s) h.advances_refl fun u s' hrun => ?_
    cases op with
    | admitJob r => exact admitJob_advances h hrun
    | claim job owner seconds =>
      simp only [Operation.transaction, run_eq_ok] at hrun
      obtain ⟨_, _, hclaim, -, rfl⟩ := hrun
      exact claimJob_advances h hdrawn hclaim
    | beginSubmit lease submitId => exact beginSubmit_advances h hdrawn hrun
    | recordAccepted lease binding => exact recordAccepted_advances h hrun
    | markUncertain lease reason => exact markUncertain_advances h hrun
    | requestControl lease reason principal =>
      refine requestControl_advances h (fun job hjob => ?_) hrun
      exact horderly _ (recordOf_eq_some hjob).2.1
    | acknowledgeControl lease binding n => exact acknowledgeControl_advances h hrun
    | settleUnstartedControl lease => exact settleUnstartedControl_advances h hrun
    | recordOriginalDeadline lease binding outcome proof =>
      exact recordOriginalDeadline_advances h horderly hrun
    | recordTerminal lease binding outcome reason => exact recordTerminal_advances h hrun

theorem Steps.advances (hs : Steps Operation.Orderly s s') (h : Accepts s) : Advances s s' := by
  induction hs with
  | refl => exact h.advances_refl
  | tail _ hstep ih =>
    have hnext := hstep.advances ih.accepts
    exact ⟨hnext.accepts, fun j hj => hnext.rows j (ih.rows j hj),
      fun k r hr => hnext.kept k r (ih.kept k r hr)⟩

/-- What is written of a job's events stays. -/
structure Delivery.Keeps (d d' : Delivery) : Prop where
  submit : ∀ e, d.submit = some e → d'.submit = some e
  backend : ∀ e, d.backend = some e → d'.backend = some e
  control : ∀ e, d.control = some e → d'.control = some e
  terminal : ∀ e, d.terminal = some e → d'.terminal = some e

/-- An event is its receipt, and the receipt stays. -/
theorem event_kept {α : Type} {g : α → Receipt} (hg : Function.Injective g) {k : String × Policy}
    {o o' : Option α} (h : Advances s s') (ho : s.receipts.lookup k = o.map g)
    (ho' : s'.receipts.lookup k = o'.map g) (e : α) (he : o = some e) : o' = some e := by
  have hkept := h.kept k (g e) (by rw [ho, he]; rfl)
  rw [ho', Option.map_eq_some_iff] at hkept
  obtain ⟨e', he', hsame⟩ := hkept
  rw [he', hg hsame]

theorem Advances.keeps (h : Advances s s') {a a' : Admission} {d d' : Delivery}
    (hid : a'.jobId = a.jobId) (hc : consistent s a d = true) (hc' : consistent s' a' d' = true) :
    d.Keeps d' := by
  simp only [consistent, eventsAgree, decide_eq_true_eq] at hc hc'
  obtain ⟨-, -, ⟨hsubmit, hbackend, hterminal, hcontrol, -⟩, -⟩ := hc
  obtain ⟨-, -, ⟨hsubmit', hbackend', hterminal', hcontrol', -⟩, -⟩ := hc'
  rw [hid] at hsubmit' hbackend' hterminal' hcontrol'
  exact ⟨event_kept (fun _ _ => Receipt.submit.inj) h hsubmit hsubmit',
    event_kept (fun _ _ => Receipt.accepted.inj) h hbackend hbackend',
    event_kept (fun _ _ => Receipt.control.inj) h hcontrol hcontrol',
    event_kept (fun _ _ => Receipt.terminal.inj) h hterminal hterminal'⟩

theorem Accepts.found (h : Accepts s) {j : String} (hrow : s.delivery.lookup j ≠ none) :
    ∃ job, recordOf s j = .ok (some job) := (h.jobs j).resolve_right fun hnone => hrow hnone.2

theorem accepts_fresh (clock : ℚ) (evident authorized : String → Bool) :
    Accepts (.fresh clock evident authorized) :=
  ⟨fun _ => .inr ⟨rfl, rfl⟩, fun _ _ h => by cases h⟩

end Runs

namespace Submitted

def owner : String := String.ofList (List.replicate 32 'b')

def lease : JobLease := ⟨sampleJobId, "digest", owner, 1, 30⟩

def binding : BackendBinding := ⟨sampleJobId, "request", "controller", "instance"⟩

def outcome (stdout : String) : ExecutionResult :=
  ⟨sampleJobId, "completed", 0, 1, "1.0", stdout, ""⟩

/-- Until the submit intent. -/
def beginning : List Operation :=
  [.admitJob ⟨sampleAdmission, .ok (), 1⟩, .claim ⟨sampleAdmission, .admitted⟩ owner 300,
    .beginSubmit { lease with expiresAt := 300 } owner]

/-- The job ends with the deadline, and then another outcome is proved to be that of the deadline. -/
def ending (lease : JobLease) : List Operation :=
  [.recordAccepted lease binding, .requestControl lease .deadline none,
    .acknowledgeControl lease binding 1, .recordTerminal lease binding (outcome "") .deadline,
    .recordOriginalDeadline lease binding (outcome "late")
      ⟨"digest", 100, String.ofList (List.replicate 64 'c')⟩]

end Submitted

def play (ops : List Operation) (s : JobStore) : JobStore :=
  ops.foldl (fun s op => op.transaction.after s) s

theorem steps_play {allowed : JobStore → Operation → Prop} {ops : List Operation}
    (h : ∀ op ∈ ops, op.Drawn ∧ ∀ s, allowed s op) (s : JobStore) : Steps allowed s (play ops s) := by
  induction ops generalizing s with
  | nil => exact .refl
  | cons op ops ih =>
    obtain ⟨hdrawn, hallowed⟩ := h op List.mem_cons_self
    exact .head (.operation op hdrawn (hallowed s)) (ih (fun o ho => h o (List.mem_cons_of_mem _ ho)) _)

theorem drawn_owner : isUuidHex Submitted.owner = true := by decide +kernel

end SandboxJobs
