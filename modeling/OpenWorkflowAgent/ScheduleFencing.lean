/-
# Fenced claims on occurrences

A scheduler works on an occurrence under a claim: an owner, a generation and a lease.
Every claim raises the generation of its slot, so a claim that was taken over never
passes `_fence` again.  What ends stays ended: a terminal slot keeps its state, and a
schedule that is no longer active gets no slot and no binding (`Closed`).
-/
import OpenWorkflowAgent.ScheduleBooks

open Transaction

namespace Schedules

variable {A : Type} {sv : ScheduleServices A} {s s' : ScheduleStore A}

/-! ## Which schedules a change may touch -/

variable {row : ScheduleRow} {record : ScheduleRecord}

variable {id : String}

theorem Evidence.status_eq {id' : String} {schedule : ScheduleRow}
    (hev : Evidence sv s id' schedule record) (hb : Books sv s)
    (hrow : s.schedules.lookup id = some row) (hid : id = record.definition.scheduleId) :
    record.status = row.payload.status := by
  obtain ⟨-, rfl⟩ := hev.books hb
  subst hid
  rw [Option.some.inj (hrow.symm.trans hev.stored), hev.record_eq]

/-- The status of a schedule stays, or the schedule was active and ends without an open
slot. -/
def StatusStep (s' : ScheduleStore A) (id : String) (row row' : ScheduleRow) : Prop :=
  row'.payload.status = row.payload.status ∨
    (row.payload.status = .active ∧
      ∀ occ b, s'.slots.lookup (id, occ) = some b → b.state.terminal = true)

/-- What becomes of the row of a schedule; a schedule that is new is active. -/
structure ScheduleStep (s s' : ScheduleStore A) (id : String) : Prop where
  stored : ∀ row, s.schedules.lookup id = some row →
    ∃ row', s'.schedules.lookup id = some row' ∧ StatusStep s' id row row'
  new : s.schedules.lookup id = none → ∀ row', s'.schedules.lookup id = some row' →
    row'.payload.status = .active

theorem ScheduleStep.of_eq (h : s'.schedules.lookup id = s.schedules.lookup id) :
    ScheduleStep s s' id := by
  refine ⟨fun row hrow => ⟨row, h.trans hrow, Or.inl rfl⟩, fun hnone row' hrow' => ?_⟩
  rw [h, hnone] at hrow'
  cases hrow'

theorem ScheduleStep.putRecord
    (hput : s'.schedules.lookup id = (putRecord record s).schedules.lookup id)
    (hself : ∀ row, s.schedules.lookup id = some row → id = record.definition.scheduleId →
      record.status = row.payload.status ∨ (row.payload.status = .active ∧
        ∀ occ b, s'.slots.lookup (id, occ) = some b → b.state.terminal = true)) :
    ScheduleStep s s' id := by
  by_cases hid : id = record.definition.scheduleId
  · subst hid
    have hlookup : s'.schedules.lookup record.definition.scheduleId =
        (s.schedules.lookup record.definition.scheduleId).map (savedRow record) :=
      hput.trans Table.lookup_updateWhere_self
    refine ⟨fun row hrow => ⟨savedRow record row, ?_, hself row hrow rfl⟩, fun hnone row' hrow' => ?_⟩
    · rw [hlookup, hrow]
      rfl
    · rw [hlookup, hnone] at hrow'
      cases hrow'
  · exact ScheduleStep.of_eq (hput.trans (lookup_putRecord_ne hid))

/-- **A schedule only ends when no slot of it is open.** -/
theorem Change.scheduleStep (h : Change sv s s') (hb : Books sv s) (id : String) :
    ScheduleStep s s' id := by
  cases h with
  | untouched => exact ScheduleStep.of_eq rfl
  | created record _ operationKey _ _ _ _ _ _ hactive _ _ hfresh =>
    by_cases hid : id = record.definition.scheduleId
    · subst hid
      refine ⟨fun row hrow => ?_, fun _ row' hrow' => ?_⟩
      · rw [hfresh] at hrow
        cases hrow
      · have hput := Table.lookup_put_self.symm.trans hrow'
        rw [← Option.some.inj hput]
        exact hactive
    · exact ScheduleStep.of_eq (Table.lookup_put_ne hid)
  | claimed => exact ScheduleStep.of_eq rfl
  | admitted _ _ _ _ _ _ hadm =>
    exact ScheduleStep.putRecord rfl fun row hrow hid =>
      Or.inl (hadm.evidence.status_eq hb hrow hid :)
  | bound _ _ _ _ _ _ _ _ _ _ hev =>
    exact ScheduleStep.putRecord rfl fun row hrow hid => Or.inl (hev.status_eq hb hrow hid :)
  | triggered _ _ _ _ _ _ hev =>
    exact ScheduleStep.putRecord rfl fun row hrow hid => Or.inl (hev.status_eq hb hrow hid :)
  | retriggered request _ _ slot _ _ _ _ _ _ hslot hunbound =>
    exact absurd hunbound (hb.triggers request.scheduleId request.cycleKey slot hslot)
  | renewed => exact ScheduleStep.of_eq rfl
  | waited => exact ScheduleStep.of_eq rfl
  | finished claim _ schedule _ _ _ _ status _ hev hslot hfence _ _ _ hmoves =>
    refine ScheduleStep.putRecord rfl fun row hrow hid => ?_
    cases hmoves with
    | onward => exact Or.inl (hev.status_eq hb hrow hid :)
    | stayed => exact Or.inl (hev.status_eq hb hrow hid :)
    | ended hactive hkind =>
      have hst := hev.status_eq hb hrow hid
      refine Or.inr ⟨hst.symm.trans hactive, fun occ b hocc => ?_⟩
      -- the finished slot was the only open one
      obtain ⟨hbooks, hid'⟩ := hev.books hb
      obtain rfl : id = claim.scheduleId := hid.trans hid'
      rw [hev.record_eq] at hkind
      have hcal : Calendar s claim.scheduleId schedule.payload :=
        hbooks.calendar fun hon => by cases hkind.symm.trans hon
      obtain ⟨n, hn⟩ := hcal.numbered hslot
      have hkey : claim.key = (claim.scheduleId, Occurrence.slot n) :=
        congrArg (Prod.mk claim.scheduleId) hn
      rw [hkey] at hslot hocc
      have hstored : s.slots.lookup (claim.scheduleId, occ) ≠ none := by
        intro hnone
        cases (lookup_setSlot_none hnone).symm.trans hocc
      obtain ⟨m, rfl, -⟩ := (hcal.occurrences occ).mp hstored
      exact hcal.closed_after_finish hkind hslot hfence.2.2.2.2 status.slot_terminal m b hocc
  | cancelled id' _ _ hev hactive =>
    refine ScheduleStep.putRecord rfl fun row hrow hid => ?_
    have hst := hev.status_eq hb hrow hid
    refine Or.inr ⟨hst.symm.trans hactive, fun occ b hocc => ?_⟩
    rw [lookup_cancelSlots] at hocc
    obtain ⟨a, -, rfl⟩ := Option.map_eq_some_iff.mp hocc
    rw [if_pos (hid.trans (hev.books hb).2)]
    exact cancelledSlot_terminal a

/-! ## Ended schedules are closed -/

/-- Every slot of a schedule that is not active is terminal. -/
def Closed (s : ScheduleStore A) : Prop :=
  ∀ id row, s.schedules.lookup id = some row → row.payload.status ≠ .active →
    ∀ occ a, s.slots.lookup (id, occ) = some a → a.state.terminal = true

/-- A schedule that is not active keeps its slots, all of them terminal. -/
theorem Change.ended_slots (h : Change sv s s') (hb : Books sv s) (hc : Closed s)
    (hrow : s.schedules.lookup id = some row) (hended : row.payload.status ≠ .active)
    (occ : Occurrence) : (s.slots.lookup (id, occ) = none → s'.slots.lookup (id, occ) = none) ∧
      ∀ a, s.slots.lookup (id, occ) = some a → ∃ b, s'.slots.lookup (id, occ) = some b ∧
        b.state = a.state ∧ b.invocationId = a.invocationId := by
  have hstep := h.slotStep hb (id, occ)
  have hinactive : ¬ Active s id := by
    rintro ⟨row', hrow', hactive⟩
    obtain rfl : row' = row := Option.some.inj (hrow'.symm.trans hrow)
    exact hended hactive
  refine ⟨fun hnone => (hstep.absent hnone).resolve_left hinactive, fun a ha => ?_⟩
  obtain ⟨b, hb', hab, hinv⟩ := hstep.stored a ha
  exact ⟨b, hb', hab.terminal (hc id row hrow hended occ a ha), hinv.resolve_left hinactive⟩

theorem Change.closed (h : Change sv s s') (hb : Books sv s) (hc : Closed s) : Closed s' := by
  intro id row' hrow' hended occ b hslot
  cases hrow : s.schedules.lookup id with
  | none => exact absurd ((h.scheduleStep hb id).new hrow row' hrow') hended
  | some row =>
    obtain ⟨row'', hrow'', hstep⟩ := (h.scheduleStep hb id).stored row hrow
    obtain rfl : row'' = row' := Option.some.inj (hrow''.symm.trans hrow')
    rcases hstep with hsame | ⟨-, hclosed⟩
    · rw [hsame] at hended
      obtain ⟨habsent, hkept⟩ := h.ended_slots hb hc hrow hended occ
      cases ha : s.slots.lookup (id, occ) with
      | none =>
        rw [habsent ha] at hslot
        cases hslot
      | some a =>
        obtain ⟨b', hb', hstate, -⟩ := hkept a ha
        obtain rfl : b' = b := Option.some.inj (hb'.symm.trans hslot)
        rw [hstate]
        exact hc id row hrow hended occ a ha
    · exact hclosed occ b hslot

/-- The invariant of claims: the books, and ended schedules without open slots. -/
structure Fenced (sv : ScheduleServices A) (s : ScheduleStore A) : Prop where
  books : Books sv s
  closed : Closed s

theorem Initial.fenced (h : Initial s) : Fenced sv s where
  books := h.books
  closed id row hrow := by
    rw [h.schedules] at hrow
    cases hrow

theorem Step.fenced (h : Step sv s s') (hf : Fenced sv s) : Fenced sv s' := by
  refine ⟨h.books hf.books, ?_⟩
  rcases h.change_or_commit with hchange | ⟨r, -, rfl⟩
  · exact hchange.closed hf.books hf.closed
  · exact hf.closed

theorem Steps.fenced (h : Steps sv s s') (hf : Fenced sv s) : Fenced sv s' := by
  induction h with
  | refl => exact hf
  | tail _ hstep ih => exact hstep.fenced ih

/-! ## After a cancellation -/

/-- The slots of a schedule are frozen: none is created, bound or finished. -/
def Frozen (s s' : ScheduleStore A) (id : String) : Prop :=
  ∀ occ, (s.slots.lookup (id, occ) = none → s'.slots.lookup (id, occ) = none) ∧
    ∀ a, s.slots.lookup (id, occ) = some a → ∃ b, s'.slots.lookup (id, occ) = some b ∧
      b.state = a.state ∧ b.invocationId = a.invocationId

theorem Frozen.refl (s : ScheduleStore A) (id : String) : Frozen s s id :=
  fun _ => ⟨fun h => h, fun a ha => ⟨a, ha, rfl, rfl⟩⟩

theorem Frozen.trans {s₁ s₂ s₃ : ScheduleStore A} (h : Frozen s₁ s₂ id) (h' : Frozen s₂ s₃ id) :
    Frozen s₁ s₃ id := by
  intro occ
  refine ⟨fun hnone => (h' occ).1 ((h occ).1 hnone), fun a ha => ?_⟩
  obtain ⟨b, hb, hstate, hinv⟩ := (h occ).2 a ha
  obtain ⟨c, hc, hstate', hinv'⟩ := (h' occ).2 b hb
  exact ⟨c, hc, hstate'.trans hstate, hinv'.trans hinv⟩

def Ended (s : ScheduleStore A) (id : String) : Prop :=
  ∃ row, s.schedules.lookup id = some row ∧ row.payload.status ≠ .active

theorem Change.ended (h : Change sv s s') (hb : Books sv s) (hended : Ended s id) :
    Ended s' id := by
  obtain ⟨row, hrow, hst⟩ := hended
  obtain ⟨row', hrow', hstep⟩ := (h.scheduleStep hb _).stored _ hrow
  refine ⟨row', hrow', ?_⟩
  rcases hstep with hsame | ⟨hactive, -⟩
  · rw [hsame]
    exact hst
  · exact absurd hactive hst

/-- Over a run, an ended schedule stays ended and its slots stay as they are. -/
theorem Steps.frozen (h : Steps sv s s') (hf : Fenced sv s) (hended : Ended s id) :
    Ended s' id ∧ Frozen s s' id := by
  induction h with
  | refl => exact ⟨hended, Frozen.refl s id⟩
  | tail hrun hstep ih =>
    have hmid : Fenced sv _ := Steps.fenced hrun hf
    rcases hstep.change_or_commit with hchange | ⟨r, -, rfl⟩
    · obtain ⟨row, hrow, hst⟩ := ih.1
      have hone := fun occ => hchange.ended_slots hmid.books hmid.closed hrow hst occ
      exact ⟨hchange.ended hmid.books ih.1, ih.2.trans hone⟩
    · exact ⟨ih.1, ih.2.trans (Frozen.refl _ id)⟩

theorem cancel_ended (hb : Books sv s) (h : (cancel sv id).run s = .ok (record, s')) :
    Ended s' id := by
  obtain ⟨saved, _, hreq, h⟩ := bind_eq_ok.mp h
  obtain ⟨rfl, schedule, hev⟩ := requireSchedule_eq_ok hreq
  obtain ⟨-, rfl⟩ := hev.books hb
  unfold cancelRecord at h
  split at h
  · simp only [run_eq_ok] at h
    obtain ⟨_, hsave, -, rfl⟩ := h
    obtain ⟨-, rfl⟩ := saveSchedule_eq_ok hsave
    exact ⟨_, lookup_putRecord_self { saved with status := .cancelled, leaseUntil := none }
      hev.stored, fun heq => by cases heq⟩
  · next hended =>
      obtain ⟨-, rfl⟩ := pure_eq_ok.mp h
      rw [hev.record_eq] at hended
      exact ⟨schedule, hev.stored, hended⟩

/-! ## Claims -/

/-- A claim that `claim_due` hands out is the live one of its slot, of a generation that
the slot has not had. -/
theorem claimDue_takes {request : ClaimRequest} {c : ClaimedRecord} (hb : Books sv s)
    (h : (claimDue sv request).run s = .ok (some c, s')) :
    ∃ claim row', c.claim = some claim ∧ s'.slots.lookup claim.key = some row' ∧
      Fences row' claim request.now ∧
      ∀ row, s.slots.lookup claim.key = some row → row.generation < claim.generation := by
  cases claimDue_eq_ok h with
  | recovered key _ record row hrec =>
    have hkey : (record.definition.scheduleId, key.2) = key := by rw [(hrec.evidence.books hb).2]
    refine ⟨_, claimedSlot request row, rfl, ?_, ⟨rfl, rfl, rfl, ?_, hrec.is_open⟩, ?_⟩
    · show (setSlot key _ s).slots.lookup (record.definition.scheduleId, key.2) = _
      rw [hkey]
      exact lookup_setSlot_self hrec.stored
    · exact lt_add_of_pos_right request.now hrec.lease
    · intro row₀ hrow₀
      have hrow₀' : s.slots.lookup key = some row₀ := by
        rw [← hkey]
        exact hrow₀
      obtain rfl : row₀ = row := Option.some.inj (hrow₀'.symm.trans hrec.stored)
      exact Nat.lt_succ_self _
  | admitted _ _ record _ due hadm =>
    refine ⟨_, claimedSlot request (newSlot record.nextRunAt record.definition.inputData), rfl,
      ?_, ⟨rfl, rfl, rfl, ?_, rfl⟩, ?_⟩
    · show (admitStore request record due s).slots.lookup (nextKey record) = _
      rw [lookup_admitStore, if_pos rfl]
    · exact lt_add_of_pos_right request.now hadm.lease
    · intro row₀ hrow₀
      have hnone : s.slots.lookup (nextKey record) = some row₀ := hrow₀
      rw [hadm.fresh] at hnone
      cases hnone

theorem Fences.unique {row : SlotRow} {claim claim' : ScheduleClaim} {now now' : ℚ}
    (h : Fences row claim now) (h' : Fences row claim' now') (hkey : claim.key = claim'.key) :
    claim = claim' := by
  obtain ⟨howner, hgen, hlease, -, -⟩ := h
  obtain ⟨howner', hgen', hlease', -, -⟩ := h'
  cases claim
  cases claim'
  simp only [ScheduleClaim.key, Prod.mk.injEq] at hkey
  simp_all

/-- The claim does not pass the fence. -/
def Stale (s : ScheduleStore A) (claim : ScheduleClaim) (now : ℚ) : Prop :=
  ∀ row, s.slots.lookup claim.key = some row → ¬ Fences row claim now

/-- The call raises, and nothing is written. -/
def Refused {α : Type} (t : Transaction OwaError (ScheduleStore A) α) (s : ScheduleStore A) :
    Prop :=
  ∃ e, t.answer s = .error e ∧ t.after s = s

theorem refused_of_not_ok {α : Type} {t : Transaction OwaError (ScheduleStore A) α}
    (h : ∀ a s', t.run s ≠ .ok (a, s')) : Refused t s := by
  cases hanswer : t.answer s with
  | error e => exact ⟨e, hanswer, after_of_error hanswer⟩
  | ok a =>
    obtain ⟨s', hs'⟩ := answer_eq_ok.mp hanswer
    exact absurd hs' (h a s')

/-- A claim of an older generation than its slot never passes again. -/
theorem Steps.stale (h : Steps sv s s') (hb : Books sv s) {claim : ScheduleClaim} {row : SlotRow}
    (hrow : s.slots.lookup claim.key = some row) (hold : claim.generation < row.generation)
    (now : ℚ) : Stale s' claim now := by
  intro row' hrow' hfences
  obtain ⟨b, hb', hevolves⟩ := h.slotsEvolve hb claim.key row hrow
  obtain rfl : b = row' := Option.some.inj (hb'.symm.trans hrow')
  have hgen : b.generation = claim.generation := hfences.2.1
  have hle := hevolves.generation
  omega

/-- **Slot claims are fenced, in every run.**  Each claim raises the generation of its slot
and is the live one after it; at most one claim passes the fence; a claim that does not
pass it can neither bind, renew, mark waiting nor finish, and one that was overtaken never
passes it again; generations never fall and terminal slot states never change; and after a
committed cancellation no slot of the schedule is created, bound or finished. -/
theorem schedule_claims_fenced_in_every_run {s₀ : ScheduleStore A} (hinit : Initial s₀)
    (hrun : Steps sv s₀ s) :
    (∀ request c s', (claimDue sv request).run s = .ok (some c, s') →
      ∃ claim row', c.claim = some claim ∧ s'.slots.lookup claim.key = some row' ∧
        Fences row' claim request.now ∧
        ∀ row, s.slots.lookup claim.key = some row → row.generation < claim.generation) ∧
    (∀ claim claim' row now now', claim.key = claim'.key →
      s.slots.lookup claim.key = some row → Fences row claim now → Fences row claim' now' →
      claim = claim') ∧
    (∀ claim now, Stale s claim now →
      (∀ claimed engine fresh, claimed.claim = some claim →
        Refused (bindInvocation sv claimed engine now fresh) s) ∧
      (∀ leaseSeconds, Refused (renew claim now leaseSeconds) s) ∧
      Refused (markWaiting claim now) s ∧
      (∀ scheduleId invocationId status,
        Refused (finish sv scheduleId invocationId status now (some claim)) s)) ∧
    (∀ claim row, s.slots.lookup claim.key = some row → claim.generation < row.generation →
      ∀ s', Steps sv s s' → ∀ now, Stale s' claim now) ∧
    (∀ key a, s.slots.lookup key = some a → ∀ s', Steps sv s s' →
      ∃ b, s'.slots.lookup key = some b ∧ a.generation ≤ b.generation ∧
        (a.state.terminal = true → b.state = a.state)) ∧
    (∀ id record s₁, (cancel sv id).run s = .ok (record, s₁) →
      ∀ s', Steps sv s₁ s' → Frozen s₁ s' id) := by
  have hf : Fenced sv s := hrun.fenced hinit.fenced
  refine ⟨?_, ?_, ?_, ?_, ?_, ?_⟩
  · intro request c s' h
    exact claimDue_takes hf.books h
  · intro claim claim' row now now' hkey _ h h'
    exact h.unique h' hkey
  · intro claim now hstale
    refine ⟨?_, ?_, ?_, ?_⟩
    · intro claimed engine fresh hclaimed
      refine refused_of_not_ok fun handle s' h => ?_
      obtain ⟨claim', row, hclaim', hrow, hfences, -⟩ := bindInvocation_eq_ok h
      obtain rfl : claim' = claim := Option.some.inj (hclaim'.symm.trans hclaimed)
      exact hstale row hrow hfences
    · intro leaseSeconds
      refine refused_of_not_ok fun renewed s' h => ?_
      obtain ⟨row, hrow, hfences, (_ : Change sv s s')⟩ := renew_eq_ok h
      exact hstale row hrow hfences
    · refine refused_of_not_ok fun _ s' h => ?_
      obtain ⟨row, hrow, hfences, (_ : Change sv s s')⟩ := markWaiting_eq_ok h
      exact hstale row hrow hfences
    · intro scheduleId invocationId status
      refine refused_of_not_ok fun record s' h => ?_
      obtain ⟨claim', row, hclaim', -, hrow, hfences, -⟩ := finish_eq_ok h
      obtain rfl : claim = claim' := Option.some.inj hclaim'
      exact hstale row hrow hfences
  · intro claim row hrow hold s' hrun' now
    exact hrun'.stale hf.books hrow hold now
  · intro key a ha s' hrun'
    obtain ⟨b, hb, hab⟩ := hrun'.slotsEvolve hf.books key a ha
    exact ⟨b, hb, hab.generation, hab.terminal⟩
  · intro id record s₁ hcancel s' hrun'
    have hfirst : Fenced sv s₁ := by
      have hstep : Step sv s ((Operation.cancel id).apply sv s) := Step.operation _
      have hafter : (Operation.cancel id).apply sv s = s₁ := after_of_ok hcancel
      rw [hafter] at hstep
      exact hstep.fenced hf
    exact (hrun'.frozen hfirst (cancel_ended hf.books hcancel)).2

/-- In the run of an early completion the claim on the finished occurrence is stale, and
its scheduler can do nothing more with it. -/
theorem schedule_claims_fenced_of_early_completion :
    Initial EarlyCompletion.empty ∧ Steps EarlyCompletion.services EarlyCompletion.empty
      EarlyCompletion.final ∧
    Stale EarlyCompletion.final EarlyCompletion.claim 104 ∧
    Refused (renew EarlyCompletion.claim 104 30) EarlyCompletion.final ∧
    Refused (finish EarlyCompletion.services "schedule" "invocation" .completed 104
      (some EarlyCompletion.claim)) EarlyCompletion.final := by
  have hinit : Initial EarlyCompletion.empty := ⟨rfl, rfl, rfl, rfl⟩
  have hstale : Stale EarlyCompletion.final EarlyCompletion.claim 104 := by
    intro row hrow
    have hall : (EarlyCompletion.final.slots.lookup EarlyCompletion.claim.key).all
        (fun row => decide (¬ Fences row EarlyCompletion.claim 104)) = true := by decide +kernel
    rw [hrow] at hall
    simpa using hall
  have hfenced := schedule_claims_fenced_in_every_run hinit EarlyCompletion.reaches
  obtain ⟨-, hrenew, -, hfinish⟩ := hfenced.2.2.1 EarlyCompletion.claim 104 hstale
  exact ⟨hinit, EarlyCompletion.reaches, hstale, hrenew 30, hfinish _ _ _⟩

end Schedules
