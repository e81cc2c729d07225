/-
# Recording the outcome of a sandbox job

`record_terminal` with the reason `exited`.  The outcome check of the store bounds the bytes of the
output, but what is stored is the output as JSON, twice: in the row of the job and in a receipt.
A control character of the output takes up to six bytes there, so that an outcome with enough of
them passes the check and cannot be recorded.  A duration that is a whole number beyond the safe
integers passes it as well, and is no valid JSON value of the runtime.

Nothing else stands in the way (`sandbox_outcome_recorded_iff`).
-/
import OpenWorkflowAgent.SandboxEvidence

open Transaction

namespace SandboxJobs

/-- A submitted job without an outcome, under a live lease, with an outcome that passes the check
of the store and the binding of the job. -/
structure Recordable (s : JobStore) (lease : JobLease) (binding : BackendBinding)
    (outcome : ExecutionResult) (job : Job) : Prop where
  valid : outcomeValid lease.jobId outcome = true
  live : s.holds lease = true
  found : recordOf s lease.jobId = .ok (some job)
  digest : job.admission.digest = lease.admissionDigest
  authorized : s.authorized lease.jobId = true
  submitted : job.delivery.status ≠ .ready
  undecided : job.delivery.terminal = none
  binds : bindingAgrees job.admission binding = true
  same : (job.delivery.backend.all fun b => b.value = binding) = true

def Recorded (s : JobStore) (lease : JobLease) (binding : BackendBinding)
    (outcome : ExecutionResult) : Prop :=
  ∃ s' job, (recordTerminal lease binding outcome .exited).run s = .ok ((), s') ∧
    recordOf s' lease.jobId = .ok (some job) ∧ job.delivery.status = .terminal

/-- The outcome without its output. -/
def ExecutionResult.silent (o : ExecutionResult) : ExecutionResult :=
  { o with stdout := "", stderr := "" }

/-- The output fits into the receipt as JSON, beside what is in it anyway; and the duration is a
number of the runtime. -/
def Fits (job : Job) (binding : BackendBinding) (o : ExecutionResult) : Prop :=
  (o.duration.den = 1 → |o.duration.num| ≤ Json.maxSafeInteger) ∧
    escapedSize o.stdout + escapedSize o.stderr +
      receiptSize (stamp job ⟨some binding, some o.silent, .exited⟩) ≤ maxBytes

section Recording

variable {s : JobStore} {lease : JobLease} {binding : BackendBinding} {outcome : ExecutionResult}
  {job : Job}

theorem receiptSize_eq (job : Job) (binding : BackendBinding) (o : ExecutionResult) :
    receiptSize (stamp job ⟨some binding, some o, .exited⟩) =
      escapedSize o.stdout + escapedSize o.stderr +
        receiptSize (stamp job ⟨some binding, some o.silent, .exited⟩) := by
  have hempty : escapedSize "" = 0 := rfl
  simp only [receiptSize, receiptJson, terminalJson, ExecutionResult.json, ExecutionResult.silent,
    stamp, Option.map_some, Option.getD_some, Json.dumpSize, Json.dumpFieldsSize,
    List.isEmpty_cons, List.isEmpty_nil, Bool.false_eq_true, if_false, if_true, hempty]
  omega

theorem terminalJson_valid {o : ExecutionResult} (hv : outcomeValid lease.jobId o = true) :
    (terminalJson (stamp job ⟨some binding, some o, .exited⟩)).valid = true ↔
      (o.duration.den = 1 → |o.duration.num| ≤ Json.maxSafeInteger) := by
  have hcode : |o.exitCode| ≤ Json.maxSafeInteger := by
    obtain ⟨-, -, hlow, hhigh, -⟩ := of_decide_eq_true hv
    rw [abs_le]
    constructor
    · exact le_trans (by decide) hlow
    · exact le_trans hhigh.le (by decide)
  simp [terminalJson, ExecutionResult.json, BackendBinding.json, stamp, Json.valid, Json.validAt,
    Json.validFieldsAt, Json.maxDepth, hcode, imp_iff_not_or]

/-- The row of a job with its outcome. -/
def Delivery.ended (event : Stamped TerminalEvent) (d : Delivery) : Delivery :=
  { d with terminal := some event, status := .terminal, uncertainty := none }

def JobStore.withOutcome (s : JobStore) (job : Job) (event : Stamped TerminalEvent) : JobStore :=
  s.noted job.admission.jobId .terminal (.terminal event) (Delivery.ended event)

section

variable (h : Recordable s lease binding outcome job)

include h

theorem Recordable.terminal_unknown :
    s.receipts.lookup (job.admission.jobId, .terminal) = none := by
  obtain ⟨-, -, -, -, hconsistent⟩ := recordOf_eq_some h.found
  simp only [consistent, eventsAgree, decide_eq_true_eq] at hconsistent
  rw [hconsistent.2.2.1.2.2.1, h.undecided]
  rfl

theorem Recordable.recordOf_withOutcome {event : Stamped TerminalEvent}
    (hevent : event = stamp job ⟨some binding, some outcome, .exited⟩)
    (hsize : receiptSize event ≤ maxBytes) :
    recordOf (s.withOutcome job event) lease.jobId =
      .ok (some ⟨job.admission, job.delivery.ended event⟩) := by
  obtain ⟨-, -, -, hsame, hconsistent⟩ := recordOf_eq_some h.found
  have hbelongs : event.belongs job.admission = true := by
    rw [hevent]
    simp [Stamped.belongs, stamp]
  have hlookup (p : Policy) : (s.withOutcome job event).receipts.lookup (job.admission.jobId, p) =
      if p = .terminal then some (.terminal event)
      else s.receipts.lookup (job.admission.jobId, p) :=
    lookup_noted (by simp [h.terminal_unknown]) p
  have hfound := h.found
  rw [← hsame] at hfound ⊢
  refine recordOf_noted hfound ?_
  change consistent (s.withOutcome job event) _ _ = true
  have hclock : s.clock ≤ (s.withOutcome job event).clock := le_refl s.clock
  have hevident : (s.withOutcome job event).evident = s.evident := rfl
  generalize s.withOutcome job event = s' at hlookup hclock hevident
  simp only [consistent, eventsAgree, decide_eq_true_eq] at hconsistent ⊢
  obtain ⟨hretained, hadmission, ⟨hsubmit, hbackend, -, hcontrol, hack, hbelong⟩, hsubmitted,
    hcontrolled, hacked, hdeadline, hstatus, -, hbinds, -, hcontrolSize, -⟩ := hconsistent
  have hintent : job.delivery.submit ≠ none := by
    intro hnone
    simp [statusFits, h.submitted, hnone, h.undecided, unstarted] at hstatus
  refine ⟨hevident ▸ hretained, by simpa [hlookup] using hadmission, ?_, hsubmitted, hcontrolled,
    hacked, deadlineFits_mono (by simp [hlookup]) hclock rfl rfl hdeadline, ?_, ?_, hbinds, ?_,
    hcontrolSize, ?_⟩
  · simpa [hlookup, Delivery.ended, hsubmit, hbackend, hcontrol, hack, hbelongs, h.undecided]
      using hbelong
  · simp [statusFits, Delivery.ended, hintent]
  · simp [Delivery.ended]
  · subst hevent
    simpa [Delivery.ended, terminalFits, reasonFits, stamp, h.binds, hsame, h.valid] using h.same
  · simpa [Delivery.ended] using hsize

theorem Recordable.storeTerminal {u : Unit} {s' : JobStore} :
    (storeTerminal job (stamp job ⟨some binding, some outcome, .exited⟩)).run s = .ok (u, s') ↔
      Fits job binding outcome ∧
        s.withOutcome job (stamp job ⟨some binding, some outcome, .exited⟩) = s' := by
  obtain ⟨-, -, -, hsame, -⟩ := recordOf_eq_some h.found
  have hget := h.recordOf_withOutcome rfl
  have hnone := h.terminal_unknown
  rw [← hsame] at hget
  have hfits : Fits job binding outcome ↔
      (terminalJson (stamp job ⟨some binding, some outcome, .exited⟩)).valid = true ∧
        receiptSize (stamp job ⟨some binding, some outcome, .exited⟩) ≤ maxBytes := by
    rw [terminalJson_valid h.valid, receiptSize_eq]
    rfl
  rw [hfits]
  simp only [SandboxJobs.storeTerminal, h.undecided, insertReceipt, updateDelivery, requireJob,
    getJob, run_eq_ok]
  generalize stamp job (TerminalEvent.mk (some binding) (some outcome) .exited) = event at hget
  unfold JobStore.withOutcome JobStore.noted Delivery.ended at hget ⊢
  by_cases hsize : receiptSize event ≤ maxBytes
  · simp [hnone, hget hsize, hsize]
  · simp [hsize, Nat.lt_of_not_le hsize]

theorem Recordable.recorded_iff : Recorded s lease binding outcome ↔ Fits job binding outcome := by
  have hrun : ∀ s', (recordTerminal lease binding outcome .exited).run s = .ok ((), s') ↔
      Fits job binding outcome ∧
        s.withOutcome job (stamp job ⟨some binding, some outcome, .exited⟩) = s' := by
    intro s'
    have hdiffers : (job.delivery.backend.any fun b => !decide (b.value = binding)) = false := by
      have := h.same
      cases hbackend : job.delivery.backend <;> simp_all
    rw [recordTerminal, bind_eq_ok]
    simp only [raiseIf_eq_ok, underLease_eq_ok]
    simp only [run_eq_ok]
    simp [h.valid, h.live, h.found, h.digest, h.authorized, h.submitted, h.binds, hdiffers, reasonFits,
      h.storeTerminal]
  constructor
  · rintro ⟨s', _, hok, -⟩
    exact ((hrun s').mp hok).1
  · intro hfits
    refine ⟨_, _, (hrun _).mpr ⟨hfits, rfl⟩, h.recordOf_withOutcome rfl ?_, rfl⟩
    rw [receiptSize_eq]
    exact hfits.2

end

end Recording

namespace Submitted

def job : Job :=
  ⟨sampleAdmission, ⟨.submitting, some ⟨sampleJobId, "digest", "request", owner, owner, 1⟩, none,
    none, none, none, none⟩⟩

/-- The store after the admission, the claim and the submit intent. -/
def store : JobStore :=
  (beginSubmit lease owner).after ((claimJob ⟨sampleAdmission, .admitted⟩ owner 30).after
    ((admitJob ⟨sampleAdmission, .ok (), 1⟩).after (.fresh 0 (fun _ => true) fun _ => true)))

theorem recordable {stdout : String} (h : stdout.utf8ByteSize ≤ maxOutputBytes) :
    Recordable store lease binding (outcome stdout) job where
  valid := by simp [outcomeValid, outcome, lease, h]
  live := by decide +kernel
  found := by decide +kernel
  digest := by decide +kernel
  authorized := by decide +kernel
  submitted := by decide +kernel
  undecided := by decide +kernel
  binds := by decide +kernel
  same := by decide +kernel

theorem escapedSize_le {stdout : String} (h : Fits job binding (outcome stdout)) :
    escapedSize stdout ≤ maxBytes :=
  le_trans (le_trans (Nat.le_add_right _ _) (Nat.le_add_right _ _)) h.2

/-- The output is a quarter of a mebibyte of a control character. -/
def controlCharacters : String := String.ofList (List.replicate maxOutputBytes (Char.ofNat 1))

end Submitted

end SandboxJobs
