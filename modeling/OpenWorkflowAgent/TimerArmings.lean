/-
# Arming a timer again

An executor that is started again comes to its `wait` task a second time and calls `arm` with the
request it made before.  Once a timer is armed, no step of any process changes what `get` answers
for it (`Step.armed`), so the saved arming is found.  But `arm` checks the request against the
current clock before it looks: a request whose deadline has come is refused although it is the one
that was saved (`rearm_iff`).
-/
import OpenWorkflowAgent.TimerWakes

open Transaction

namespace Timers

variable {sv : TimerServices} {s s' : TimerStore} {fp : String → String}

/-! ## What an armed timer keeps -/

theorem Step.sameArming (hsv : Reliable sv) (h : Step sv fp s s') {key : String} {row : TimerRow}
    (hrow : s.timers.lookup key = some row) :
    ∃ row', s'.timers.lookup key = some row' ∧ SameArming row row' := by
  rcases h.cases hsv with hturns | ⟨identity, r, receipt, -, harms⟩ |
    ⟨_, _, _, _, _, _, known, receipt, -, -, hnew⟩
  · obtain ⟨row', hrow', hsame, -⟩ := hturns.rows key row hrow
    exact ⟨row', hrow', hsame⟩
  · have hne : key ≠ sv.journal.key identity := by
      rintro rfl
      rw [harms.absent] at hrow
      cases hrow
    refine ⟨row, ?_, SameArming.refl row⟩
    rw [harms.store, ← hrow]
    exact Table.lookup_put_ne hne
  · by_cases hkey : key = sv.journal.key known.identity
    · subst hkey
      exact ⟨wokenRow row, (hnew.lookup_self hrow).2, ⟨rfl, rfl, rfl, rfl, rfl⟩⟩
    · refine ⟨row, ?_, SameArming.refl row⟩
      rw [hnew.lookup_ne hkey]
      exact hrow

variable {identity : EffectIdentity} {registration : TimerRegistration}

theorem Step.armed (hsv : Reliable sv) (h : Step sv fp s s') (hb : Books sv fp s)
    (hread : readTimer sv identity s = .ok (some registration)) :
    readTimer sv identity s' = .ok (some registration) := by
  obtain ⟨row, hrow, hdecode⟩ := readTimer_eq_some hread
  have hbooks := hb.rows _ row hrow
  have hid : row.payload.identity = identity := (hsv.key_injective hbooks.key_eq).symm
  have htimer : IsTimer row.payload.identity := Or.inl hbooks.operation
  -- The receipt of the arming and the row are there after the step, unchanged.
  obtain ⟨a, receipt, hrec, hev, -⟩ := hbooks.armed
  have hreads := (h.recorded hsv htimer hrec).read hsv htimer
  obtain ⟨row', hrow', hsame⟩ := h.sameArming hsv hrow
  have hev' := hev.kept hreads hsame
  rw [hid] at hev hev'
  have hbefore := readTimer_of_evidence hrow hev
  have hafter := readTimer_of_evidence hrow' hev'
  rw [hsame.registrationOf] at hafter
  rw [hafter, ← hbefore]
  exact hread

theorem Steps.armed (hsv : Reliable sv) (h : Steps sv fp s s') (hb : Books sv fp s)
    (hread : readTimer sv identity s = .ok (some registration)) :
    readTimer sv identity s' = .ok (some registration) := by
  induction h with
  | refl => exact hread
  | tail hsteps hstep ih => exact hstep.armed hsv (Steps.books hsv hsteps hb) ih

/-! ## What a successful arming answers -/

/-- The checks that `arm` makes before it opens its transaction. -/
structure Acceptable (identity : EffectIdentity) (r : ArmRequest) : Prop where
  operation : identity.operation = armOperation
  duration : 0 < r.duration
  now : 0 < r.now
  deadline : ∀ d ∈ r.deadlineAt, r.now < d
  source : (Json.obj r.workflowSource).valid = true

variable {r : ArmRequest}

theorem acceptable_iff :
    Acceptable identity r ↔
      ¬ (identity.operation ≠ armOperation ∨ r.duration ≤ 0 ∨ r.now ≤ 0 ∨
          r.deadlineAt.any (· ≤ r.now) = true) ∧
        ¬ (Json.obj r.workflowSource).valid = false := by
  have hdeadline : r.deadlineAt.any (· ≤ r.now) = true ↔ ¬ ∀ d ∈ r.deadlineAt, r.now < d := by
    rw [option_any_eq_true]
    simp only [Option.mem_def, decide_eq_true_eq, not_forall, not_lt, exists_prop]
  simp only [not_or, not_not, not_le, hdeadline, Bool.not_eq_false]
  exact ⟨fun h => ⟨⟨h.operation, h.duration, h.now, h.deadline⟩, h.source⟩,
    fun h => ⟨h.1.1, h.1.2.1, h.1.2.2.1, h.1.2.2.2, h.2⟩⟩

/-- The lease that `arm` is given guards writes for the identity. -/
def Guarded (identity : EffectIdentity) (lease : Option ExecutionLease) (s : TimerStore) : Prop :=
  ∀ l, lease = some l → l.invocationId = identity.invocationId ∧
    l.workflowFingerprint = identity.workflowFingerprint ∧
    Ownership.writeGuard l s.journal.runtime.owners = true

theorem arm_of_saved {lease : Option ExecutionLease} (haccept : Acceptable identity r)
    (hguard : Guarded identity lease s) (hread : readTimer sv identity s = .ok (some registration))
    (hdigest : effectRequestDigest sv.digest identity.operation
      ((r.arming identity).request r.source) = .ok registration.receipt.requestDigest) :
    (arm sv identity r lease).run s = .ok (registration, s) := by
  obtain ⟨hrequest, hsource⟩ := acceptable_iff.mp haccept
  simp only [arm, run_eq_ok, ownedBy_eq_ok, get_eq_ok]
  refine ⟨hrequest, hsource, _, hdigest, hguard, some registration, hread, ?_⟩
  simp only [armFound, run_eq_ok]
  exact ⟨not_not.mpr rfl, trivial, trivial⟩

/-- What is known after `arm` has answered: the request was acceptable, `get` answers the same, and
the saved digest is the one of the request. -/
theorem arm_answers {lease : Option ExecutionLease}
    (h : (arm sv identity r lease).run s = .ok (registration, s')) :
    Acceptable identity r ∧ Guarded identity lease s ∧
      readTimer sv identity s' = .ok (some registration) ∧
      effectRequestDigest sv.digest identity.operation ((r.arming identity).request r.source) =
        .ok registration.receipt.requestDigest := by
  simp only [arm, run_eq_ok, ownedBy_eq_ok, get_eq_ok] at h
  obtain ⟨hrequest, hsource, digest, hdigest, hguard, existing, hexisting, hfound⟩ := h
  refine ⟨acceptable_iff.mpr ⟨hrequest, hsource⟩, hguard, ?_⟩
  cases existing with
  | some known =>
    simp only [armFound, run_eq_ok, not_not] at hfound
    obtain ⟨hsame, rfl, rfl⟩ := hfound
    exact ⟨hexisting, by rw [hsame]; exact hdigest⟩
  | none =>
    simp only [armFound, armNew, run_eq_ok, get_eq_ok] at hfound
    obtain ⟨_, _, -, -, -, receipt, -, s₁, hinsert, -, _, hread, rfl, rfl⟩ := hfound
    refine ⟨hread, ?_⟩
    -- `get` has recomputed the digest from the row that was just written.
    obtain ⟨row, hrow, hdecode⟩ := readTimer_eq_some hread
    obtain ⟨a, saved, hev, rfl⟩ := decodeTimer_eq_ok.mp hdecode
    have hself : row = r.row identity := by
      exact (Option.some.inj ((Table.lookup_put_self (k := sv.journal.key identity)).symm.trans
        hrow)).symm
    subst hself
    have harming : a = r.arming identity := by
      have hof := hev.arming
      rw [show (r.row identity).payload.arming = (r.arming identity).json from rfl,
        Arming.ofJson_json, Option.some.injEq] at hof
      exact hof.symm
    subst harming
    exact hev.digest

/-! ## Arming again -/

/-- The same request at another time. -/
def ArmRequest.at (r : ArmRequest) (now : ℚ) : ArmRequest := { r with now := now }

/-- **Arming again.**  In every state that the operations reach from a new database: after `arm` has
answered a registration, and after any further steps, the same request made at a later time is
answered with this registration, and nothing is written, exactly when its deadline has not come and
the lease it is made under guards writes. -/
theorem rearm_iff (hsv : Reliable sv) {s₀ : TimerStore} (h₀ : Initial s₀)
    (hrun : Steps sv fp s₀ s) {identity : EffectIdentity}
    (hfp : identity.workflowFingerprint = fp identity.invocationId) {r : ArmRequest}
    {lease : Option ExecutionLease} {registration : TimerRegistration} {s₁ : TimerStore}
    (harm : (arm sv identity r lease).run s = .ok (registration, s₁)) {s₂ : TimerStore}
    (hsteps : Steps sv fp s₁ s₂) {now : ℚ} (hlater : r.now ≤ now)
    (lease' : Option ExecutionLease) :
    (arm sv identity (r.at now) lease').run s₂ = .ok (registration, s₂) ↔
      (∀ d ∈ r.deadlineAt, now < d) ∧ Guarded identity lease' s₂ := by
  obtain ⟨haccept, -, hread, hdigest⟩ := arm_answers harm
  constructor
  · intro hagain
    obtain ⟨haccept', hguard, -⟩ := arm_answers hagain
    exact ⟨haccept'.deadline, hguard⟩
  · rintro ⟨hdeadline, hguard⟩
    have hb : Books sv fp s₁ := (Step.arm hfp harm).books hsv (Steps.books hsv hrun h₀.books)
    refine arm_of_saved ?_ hguard (Steps.armed hsv hsteps hb hread) hdigest
    exact ⟨haccept.operation, haccept.duration, haccept.now.trans_le hlater, hdeadline,
      haccept.source⟩

theorem race_armed : ∃ registration s,
    (arm Race.services Race.identity Race.request none).run Race.empty = .ok (registration, s) := by
  have hok : ((arm Race.services Race.identity Race.request none).answer Race.empty).isOk = true := by
    decide +kernel
  cases hanswer : (arm Race.services Race.identity Race.request none).answer Race.empty with
  | error e =>
    rw [hanswer] at hok
    cases hok
  | ok registration => exact ⟨registration, answer_eq_ok.mp hanswer⟩

/-- A request that is repeated at 104, before its deadline at 105. -/
theorem rearm_before_deadline : ∃ registration s,
    (arm Race.services Race.identity Race.request none).run Race.empty = .ok (registration, s) ∧
      (arm Race.services Race.identity (Race.request.at 104) none).run s = .ok (registration, s) := by
  obtain ⟨registration, s, harm⟩ := race_armed
  have hinitial : Initial Race.empty := ⟨rfl, rfl, rfl⟩
  have hrun : Steps Race.services (fun _ => "workflow") Race.empty Race.empty := .refl
  refine ⟨registration, s, harm, (rearm_iff Race.reliable hinitial hrun rfl harm .refl
    (by decide +kernel) none).mpr ⟨?_, fun _ hl => (by cases hl)⟩⟩
  intro d hd
  rw [← Option.some.inj hd]
  decide +kernel

/-- At 105 the same request is refused, although the arming is still saved. -/
theorem rearm_refused_at_deadline : ∃ registration s,
    (arm Race.services Race.identity Race.request none).run Race.empty = .ok (registration, s) ∧
      readTimer Race.services Race.identity s = .ok (some registration) ∧
      (arm Race.services Race.identity (Race.request.at 105) none).answer s =
        .error (refuse "timer arming request is invalid") := by
  obtain ⟨registration, s, harm⟩ := race_armed
  exact ⟨registration, s, harm, (arm_answers harm).2.2.1, rfl⟩

end Timers
