/-
# Arrivals over time

The inbox is numbered by a counter that no operation lowers, so a sequence number names one event
for ever: consumers keep it as a cursor or as evidence.  Retention removes rows, but never one that
a consumer has retained with its pin.
-/
import OpenWorkflowAgent.EventRetention

open Transaction

namespace EventStore

variable {s s' t : EventStore} {sys : System}

variable {consumerKey : String} {pin : ConsumerPin} {a : Arrival} {arrivals : List Arrival}

/-- What a later store has of the arrivals and of the evidence of consumers. -/
structure ArrivalsKept (s s' : EventStore) : Prop where
  counter : s.counter ≤ s'.counter
  evidence : s.consumerSelections ⊆ s'.consumerSelections
  numbered : ∀ n ≤ s.counter, s'.arrival? n = s.arrival? n ∨
    s'.arrival? n = none ∧ ∀ x ∈ s.consumerSelections, x.sequence ≠ n

theorem ArrivalsKept.of_eq (hcounter : s'.counter = s.counter) (hinbox : s'.inbox = s.inbox)
    (hevidence : s.consumerSelections ⊆ s'.consumerSelections) : ArrivalsKept s s' where
  counter := hcounter.ge
  evidence := hevidence
  numbered n _ := Or.inl (by simp only [arrival?, hinbox])

theorem ArrivalsKept.trans (h : ArrivalsKept s s') (h' : ArrivalsKept s' t) :
    ArrivalsKept s t where
  counter := h.counter.trans h'.counter
  evidence := List.Subset.trans h.evidence h'.evidence
  numbered n hn := by
    -- A number that is gone stays gone, because the counter is past it.
    rcases h'.numbered n (hn.trans h.counter) with hsame' | ⟨hgone', hfree'⟩
    · rw [hsame']
      exact h.numbered n hn
    · exact Or.inr ⟨hgone', fun x hx => hfree' x (h.evidence hx)⟩

theorem Move.arrivalsKept (h : Move sys s s') : ArrivalsKept s s' := by
  cases h with
  | arrive =>
    refine ⟨Nat.le_succ _, List.Subset.refl _, fun n hn => Or.inl ?_⟩
    have hnew : s.counter + 1 ≠ n := by omega
    simp [arrival?, storeArrival, arrivalRow, List.find?_append, hnew]
  | @prune row _ hselected _ =>
    refine ⟨le_rfl, List.Subset.refl _, fun n _ => ?_⟩
    by_cases hn : row.sequence = n
    · refine Or.inr ⟨?_, fun x hx hsequence => ?_⟩
      · simp [arrival?, deleteArrival, hn]
      · simp only [isSelected, Bool.or_eq_false_iff, List.any_eq_false] at hselected
        exact hselected.2 x hx (by simp [hsequence, hn])
    · refine Or.inl ?_
      have hkept : ∀ a : InboxRow, a.sequence ≠ row.sequence ∧ a.sequence = n ↔ a.sequence = n := by
        intro a
        omega
      simp only [arrival?, deleteArrival, List.find?_filter, decide_eq_true_eq, hkept]
  | @select _ _ _ _ _ _ _ _ picked final =>
    refine .of_eq ?_ ?_ ?_
    iterate 2 simp [progressed, updateSubscription, insertRow, raiseWatermark, noteScanned]
    cases picked <;> cases final <;> exact List.Subset.refl _
  | retain =>
    unfold retainSelection
    split
    · exact .of_eq rfl rfl (List.Subset.refl _)
    · exact .of_eq rfl rfl (List.subset_append_left _ _)
  | publish | deliver | profile | register | pass | complete | close | pin =>
    exact .of_eq rfl rfl (List.Subset.refl _)

theorem Moves.arrivalsKept (h : Moves sys s s') : ArrivalsKept s s' := by
  induction h with
  | refl => exact .of_eq rfl rfl (List.Subset.refl _)
  | tail _ hlast ih => exact ih.trans hlast.arrivalsKept

theorem Step.arrivalsKept (ht : Tables sys.codec sys.limits s) (h : Step sys s s') :
    ArrivalsKept s s' := by
  rcases h.cases ht with hmoves | henv
  · exact hmoves.arrivalsKept
  · rw [henv.tables]
    exact .of_eq rfl rfl (List.Subset.refl _)

theorem Steps.arrivalsKept (hs : Reachable sys s) (h : Steps sys s s') : ArrivalsKept s s' := by
  induction h with
  | refl => exact .of_eq rfl rfl (List.Subset.refl _)
  | tail hsteps hlast ih => exact ih.trans (hlast.arrivalsKept (hs.steps hsteps).tables)

theorem Tables.arrival_le (ht : Tables sys.codec sys.limits s) {n : ℕ} {row : InboxRow}
    (hrow : s.arrival? n = some row) : n ≤ s.counter := by
  have hnumber : row.sequence = n := by simpa using List.find?_some hrow
  rw [← hnumber]
  exact (ht.counted row (List.mem_of_find?_eq_some hrow)).2

/-- **A sequence number names one arrival.**  If two stores of a run both have an arrival of a
number, it is the same one, although retention may have removed it from stores in between. -/
theorem sequence_names_one_arrival (hs : Reachable sys s) (hlater : Steps sys s s') {n : ℕ}
    {row row' : InboxRow} (hrow : s.arrival? n = some row) (hrow' : s'.arrival? n = some row') :
    row = row' := by
  have hn := hs.tables.arrival_le hrow
  rcases (hlater.arrivalsKept hs).numbered n hn with hsame | ⟨hgone, -⟩
  · rw [hrow, hrow'] at hsame
    exact (Option.some.inj hsame).symm
  · rw [hrow'] at hgone
    cases hgone

def arrived : EventStore := ((eventOf "1" "a").run plainCodec .standard).after initial

theorem arrived_reachable : Reachable plainSystem arrived :=
  (initial_reachable plainSystem).call (eventOf "1" "a") trivial

/-- The first arrival, before and after the second. -/
theorem sequence_of_first_arrival :
    ∃ row, (((eventOf "2" "b").run plainCodec .standard).after arrived).arrival? 1 = some row ∧
      rowOf 1 "1" "a" = row := by
  have hlater : Steps plainSystem arrived (((eventOf "2" "b").run plainCodec .standard).after
    arrived) := .single (.call trivial)
  refine ⟨rowOf 1 "1" "a", by decide +kernel, ?_⟩
  exact sequence_names_one_arrival arrived_reachable hlater (n := 1) (by decide +kernel)
    (by decide +kernel)

/-- **One event for a key.**  In every store of every run each arrival is read back as an event that
was admitted, no other arrival of the scope has its source and id, and a publication in the scope
that has them carries the same event; so do two publications. -/
theorem one_event_for_each_key (hs : Reachable sys s) :
    (∀ row ∈ s.inbox, ∃ e, decodeEnvelope sys.codec row.envelope row.digest = .ok e ∧
      Admissible sys.codec sys.limits e ∧
      (∀ other ∈ s.inbox, other.scope = row.scope → other.source = e.source →
        other.eventId = e.id → other = row) ∧
      ∀ p ∈ s.outbox, p.scope = row.scope → ∀ e',
        decodeEnvelope sys.codec p.envelope p.digest = .ok e' → e'.source = e.source →
        e'.id = e.id → e' = e) ∧
    ∀ p ∈ s.outbox, ∀ q ∈ s.outbox, p.scope = q.scope → ∀ e e',
      decodeEnvelope sys.codec p.envelope p.digest = .ok e →
      decodeEnvelope sys.codec q.envelope q.digest = .ok e' → e.source = e'.source →
      e.id = e'.id → e = e' := by
  have ht := hs.tables
  have hcarries : ∀ p ∈ s.outbox, ∀ e, decodeEnvelope sys.codec p.envelope p.digest = .ok e →
      Carries sys.codec sys.limits s p.scope e := by
    intro p hp e he
    obtain ⟨f, hf⟩ := ht.outbox p hp
    obtain rfl : f = e := Except.ok.inj (hf.decode.symm.trans he)
    exact Or.inr ⟨p, hp, rfl, hf⟩
  constructor
  · intro row hrow
    obtain ⟨e, he⟩ := ht.inbox row hrow
    refine ⟨e, he.decode, he.admissible, ?_, ?_⟩
    · intro other hother hscope hsource hid
      exact ht.unique other hother row hrow hscope (hsource.trans he.source.symm)
        (hid.trans he.eventId.symm)
    · intro p hp hscope e' he' hsource hid
      exact ht.agree p.scope e' e (hcarries p hp e' he') (Or.inl ⟨row, hrow, hscope.symm, he⟩)
        hsource hid
  · intro p hp q hq hscope e e' he he' hsource hid
    exact ht.agree p.scope e e' (hcarries p hp e he) (hscope ▸ hcarries q hq e' he') hsource hid

/-- The event of the first arrival has one row. -/
theorem one_event_of_first_arrival :
    ∃ e, decodeEnvelope plainCodec (rowOf 1 "1" "a").envelope "hash" = .ok e ∧
      ∀ other ∈ arrived.inbox, other.scope = "a" → other.source = e.source →
        other.eventId = e.id → other = rowOf 1 "1" "a" := by
  obtain ⟨e, hdecode, -, hunique, -⟩ :=
    (one_event_for_each_key arrived_reachable).1 (rowOf 1 "1" "a") (by decide +kernel)
  exact ⟨e, hdecode, hunique⟩

/-! ## Retained arrivals -/

theorem verifyConsumerSelection_eq_ok {codec : EventCodec} {scope digest : String} {n : ℕ} :
    verifyConsumerSelection codec consumerKey scope n digest s = .ok a ↔
      (∃ x ∈ s.consumerSelections,
        x.consumerKey = consumerKey ∧ x.sequence = n ∧ x.digest = digest) ∧
      ∃ row, s.arrival? n = some row ∧ (row.scope = scope ∧ row.digest = digest) ∧
        ∃ e, decodeEnvelope codec row.envelope row.digest = .ok e ∧ ⟨n, e, digest⟩ = a := by
  simp only [verifyConsumerSelection, except_bind_eq_ok, except_raiseIf_eq_ok,
    except_orRaise_eq_ok, not_not, not_or, List.any_eq_true, decide_eq_true_eq, exists_const,
    pure, Except.pure, Except.ok.injEq]

/-- A verification that succeeded succeeds in a later store, with the same answer. -/
theorem ArrivalsKept.verify (hkept : ArrivalsKept s s') (ht : Tables sys.codec sys.limits s)
    {scope digest : String} {n : ℕ}
    (h : verifyConsumerSelection sys.codec consumerKey scope n digest s = .ok a) :
    verifyConsumerSelection sys.codec consumerKey scope n digest s' = .ok a := by
  rw [verifyConsumerSelection_eq_ok] at h ⊢
  obtain ⟨⟨x, hx, hmatch⟩, row, hrow, hrest⟩ := h
  refine ⟨⟨x, hkept.evidence hx, hmatch⟩, row, ?_, hrest⟩
  rcases hkept.numbered n (ht.arrival_le hrow) with hsame | ⟨-, hfree⟩
  · rw [hsame]
    exact hrow
  · exact absurd hmatch.2.1 (hfree x hx)

/-- The store has the evidence that the consumer retained the arrival. -/
def Retained (codec : EventCodec) (consumerKey scope : String) (a : Arrival) (s : EventStore) :
    Prop :=
  ∃ e, verifyConsumerSelection codec consumerKey scope a.sequence a.digest s =
    .ok ⟨a.sequence, e, a.digest⟩ ∧ jsonText e.value = jsonText a.envelope.value

theorem retainSelection_retained (h : checkSelected sys.codec consumerKey pin a s = .ok ()) :
    Retained sys.codec consumerKey pin.scope a (retainSelection consumerKey a s) := by
  simp only [checkSelected, except_bind_eq_ok, except_raiseIf_eq_ok, except_orRaise_eq_ok,
    not_or, not_not] at h
  obtain ⟨row, hrow, _, hbound, e, hdecode, _, hstored, _, htext, _, hsame, hdigest⟩ := h
  have hevidence : ∃ x ∈ (retainSelection consumerKey a s).consumerSelections,
      x.consumerKey = consumerKey ∧ x.sequence = a.sequence ∧ x.digest = a.digest := by
    unfold retainSelection
    split
    · next hany =>
        obtain ⟨x, hx, hmatch⟩ := List.any_eq_true.mp hany
        have hkey := of_decide_eq_true hmatch
        refine ⟨x, hx, hkey.1, hkey.2, ?_⟩
        by_contra hother
        exact hdigest (List.any_eq_true.mpr ⟨x, hx, decide_eq_true ⟨hkey.1, hkey.2, hother⟩⟩)
    · exact ⟨_, List.mem_append_right _ List.mem_cons_self, rfl, rfl, rfl⟩
  have hinbox : (retainSelection consumerKey a s).arrival? a.sequence = some row := by
    rw [← hrow]
    unfold retainSelection
    split <;> rfl
  refine ⟨e, ?_, by rw [hstored, htext, hsame.1]⟩
  exact verifyConsumerSelection_eq_ok.mpr ⟨hevidence, row, hinbox, hbound, e, hdecode, rfl⟩

theorem retainSelections_retained {u : Unit} (ht : Tables sys.codec sys.limits s)
    (h : (retainSelections sys.codec consumerKey pin arrivals).run s = .ok (u, s')) :
    ∀ a ∈ arrivals, Retained sys.codec consumerKey pin.scope a s' := by
  induction arrivals generalizing s with
  | nil => simp
  | cons a rest ih =>
    simp only [retainSelections, run_eq_ok] at h
    obtain ⟨hcheck, hrest⟩ := h
    have ht₁ := (Move.retain hcheck).tables ht
    intro b hb
    rcases List.mem_cons.mp hb with rfl | hb
    · -- The rest of the loop keeps the evidence of its first arrival.
      obtain ⟨e, hverify, htext⟩ := retainSelection_retained hcheck
      exact ⟨e, (Moves.arrivalsKept (retainSelections_moves hrest).1).verify ht₁ hverify, htext⟩
    · exact ih ht₁ hrest b hb

/-- **Retained arrivals outlive retention.**  Once a pin has been committed, every arrival that it
selected verifies in every later store, whatever sweeps and other operations ran since. -/
theorem retained_arrivals_survive (hs : Reachable sys s)
    (hpin : ((Operation.pin consumerKey pin arrivals).run sys.codec sys.limits).answer s = .ok ())
    (hlater : Steps sys (((Operation.pin consumerKey pin arrivals).run sys.codec sys.limits).after s)
      s') :
    ∀ a ∈ arrivals, Retained sys.codec consumerKey pin.scope a s' := by
  obtain ⟨s₂, hrun⟩ := answer_eq_ok.mp hpin
  rw [after_of_ok hrun] at hlater
  have hs₂ : Reachable sys s₂ := after_of_ok hrun ▸ hs.call _ trivial
  have hcommit := transaction_eq_ok hrun
  simp only [pinConsumer, run_eq_ok] at hcommit
  obtain ⟨-, -, existing, -, -, -, s₁, hretain, rfl⟩ := hcommit
  intro a ha
  obtain ⟨e, hverify, htext⟩ := retainSelections_retained hs.tables hretain a ha
  exact ⟨e, (hlater.arrivalsKept hs₂).verify hs₂.tables hverify, htext⟩

def retaining : Operation := .pin "consumer" ⟨"a", 1, true⟩ [⟨1, envelopeOf "1", "hash"⟩]

/-- A sweep long after the pin does not remove the retained arrival. -/
theorem first_arrival_survives_sweep :
    Retained plainCodec "consumer" "a" ⟨1, envelopeOf "1", "hash"⟩
      (((Operation.prune 100000 2).run plainCodec .standard).after
        ((retaining.run plainCodec .standard).after arrived)) := by
  have hsweep : (Operation.prune 100000 2).Promised plainSystem
    ((retaining.run plainCodec .standard).after arrived) := trivial
  exact retained_arrivals_survive arrived_reachable (by decide +kernel) (.single (.call hsweep)) _
    List.mem_cons_self

end EventStore
