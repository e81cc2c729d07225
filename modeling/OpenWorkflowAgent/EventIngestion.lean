/-
# Resubmission

A submission whose event is already in the inbox is compared with the stored envelope.  What decides
about the answer is how the map gives the time: `_make_envelope` fills in the current time where
`time` is absent or `null`, while `_canonical_submission` leaves the time out of the comparison only
where the name itself is absent.
-/
import OpenWorkflowAgent.EventSteps

open Transaction

namespace EventStore

variable {codec : EventCodec} {limits : EventStoreLimits} {sys : System} {s s₁ s₂ : EventStore}
  {p : Properties} {e : EventEnvelope}

/-! ## Comparison -/

theorem validFieldsAt_filter {d : ℕ} {fields : Properties} (q : String × Json → Bool)
    (h : Json.validFieldsAt d fields = true) : Json.validFieldsAt d (fields.filter q) = true := by
  rw [Json.validFieldsAt_eq_all, List.all_eq_true] at h ⊢
  exact fun f hf => h f (List.mem_of_mem_filter hf)

theorem comparedBy_valid (p : Properties) (h : e.value.valid = true) :
    (comparedBy p e).valid = true := by
  unfold comparedBy
  split
  · exact h
  · simp only [EventEnvelope.value, Json.valid, Json.validAt, Bool.and_eq_true] at h ⊢
    exact ⟨h.1, validFieldsAt_filter _ h.2⟩

/-- The time is not compared where the map does not name it. -/
theorem comparedBy_time (hp : p.has "time" = false) (e : EventEnvelope) (t : String) :
    comparedBy p { e with time := t } = comparedBy p e := by
  unfold comparedBy
  rw [hp]
  simp [EventEnvelope.asDict]

theorem mem_canonicalFields {fields : Properties} {name : String} {v : Json} :
    (name, v) ∈ Json.canonicalFields fields ↔ ∃ w, (name, w) ∈ fields ∧ w.canonical = v := by
  rw [Properties.canonicalFields_eq_map, List.mem_map]
  constructor
  · rintro ⟨f, hf, heq⟩
    obtain ⟨rfl, rfl⟩ := Prod.mk.inj heq
    exact ⟨f.2, hf, rfl⟩
  · rintro ⟨w, hw, rfl⟩
    exact ⟨_, hw, rfl⟩

theorem time_unique (h : e.WellFormed) {w : Json} (hw : ("time", w) ∈ e.asDict) :
    w = .str e.time := by
  have hpart : e.optionalPart.has "time" = false := by
    have hext := has_extensions h "time" (by decide)
    simp only [EventEnvelope.optionalPart, Properties.has_append, has_optionalField, hext]
    split <;> simp [Properties.has_cons]
  have hcases : ("time", w) ∈ (("time", .str e.time) : String × Json) :: e.optionalPart := by
    change ("time", w) ∈ _ :: _ :: _ :: _ :: e.optionalPart at hw
    simpa using hw
  rcases List.mem_cons.mp hcases with heq | hmem
  · exact (Prod.mk.inj heq).2
  · have : e.optionalPart.has "time" = true :=
      List.any_eq_true.mpr ⟨_, hmem, decide_eq_true rfl⟩
    rw [hpart] at this
    cases this

theorem time_of_canonical {e' : EventEnvelope} (h' : e'.WellFormed)
    (htext : e.value.canonical = e'.value.canonical) : e.time = e'.time := by
  have hin : ("time", Json.str e.time) ∈ Json.canonicalFields e.asDict :=
    mem_canonicalFields.mpr ⟨.str e.time, by simp [EventEnvelope.asDict], rfl⟩
  have hperm : (Json.canonicalFields e.asDict).Perm (Json.canonicalFields e'.asDict) := by
    have hsort := fun x : EventEnvelope => List.perm_insertionSort
      (fun a b : String × Json => a.1 ≤ b.1) (Json.canonicalFields x.asDict)
    have hsame := hsort e
    rw [Json.obj.inj htext] at hsame
    exact hsame.symm.trans (hsort e')
  obtain ⟨w, hw, hcanonical⟩ := mem_canonicalFields.mp (hperm.mem_iff.mp hin)
  rw [time_unique h' hw] at hcanonical
  exact (Json.str.inj hcanonical).symm

/-! ## Resubmission -/

/-- A submission of a retained event answers the stored envelope exactly if the envelope it makes is
accepted and has the same text, up to a time that the map does not name. -/
theorem ingest_retained (ht : Tables codec limits s) {defaultSource scope : String} {m : Moment}
    {row : InboxRow} {a : EventEnvelope} (hrow : row ∈ s.inbox) (hscope : row.scope = scope)
    (hof : ArrivalOf codec limits row e) (hsubmitted : (submittedValue p e).valid = true)
    (hmake : makeEnvelope p defaultSource m = .ok a) (hsource : a.source = e.source)
    (hid : a.id = e.id) :
    (ingest codec limits p defaultSource scope m).run s = .ok (e, s) ↔
      acceptEnvelope codec limits p defaultSource m = .ok a ∧
        (comparedBy p a).canonical = (comparedBy p e).canonical := by
  subst hscope
  have hfind : s.inboxRow? (row.scope, e.source, e.id) = some row := by
    rw [← hof.source, ← hof.eventId]
    exact ht.inboxRow? hrow
  have hknown : EventStore.knownEnvelope codec row.scope a s = .ok (some e) := by
    simp only [EventStore.knownEnvelope, hsource, hid, hfind, hof.decode, bind, Except.bind, pure,
      Except.pure]
  constructor
  · intro h
    obtain ⟨-, proposed, hsubmission, -⟩ := ingestInTransaction_eq_ok (transaction_eq_ok h)
    simp only [EventStore.canonicalSubmission, except_bind_eq_ok] at hsubmission
    obtain ⟨a', haccept, saved, hknown', hagree⟩ := hsubmission
    obtain rfl : a = a' :=
      Except.ok.inj (hmake.symm.trans (acceptEnvelope_eq_ok.mp haccept).2.1)
    cases hknown.symm.trans hknown'
    simp only [agreeWithSaved, except_eq_ok, jsonText_eq_ok, not_not] at hagree
    obtain ⟨_, ⟨-, rfl⟩, _, ⟨-, rfl⟩, htext, -⟩ := hagree
    exact ⟨haccept, htext⟩
  · rintro ⟨haccept, htext⟩
    have hvalid := (acceptEnvelope_eq_ok.mp haccept).2.2.valid
    have hagree : agreeWithSaved p a (some e) = .ok e := by
      simp only [agreeWithSaved, except_eq_ok, jsonText_eq_ok, not_not]
      exact ⟨_, ⟨comparedBy_valid p hvalid, rfl⟩, _, ⟨comparedBy_valid p hof.admissible.valid, rfl⟩,
        htext, rfl⟩
    have hsubmission : EventStore.canonicalSubmission codec limits p defaultSource row.scope m s =
        .ok e := by
      simp only [EventStore.canonicalSubmission, except_bind_eq_ok]
      exact ⟨a, haccept, some e, hknown, hagree⟩
    have hrepeated : repeated codec row (codec.hash (submittedValue p e).canonical) e = .ok e := by
      simp only [repeated, except_eq_ok, jsonText_eq_ok]
      exact ⟨e, hof.decode, _, ⟨hof.admissible.valid, rfl⟩, _, ⟨hof.admissible.valid, rfl⟩,
        fun hc => hc.2 rfl, rfl⟩
    simp only [ingest, transaction, mapError_eq_ok, run_eq_ok, ingestInTransaction, jsonText_eq_ok]
    exact ⟨s, ht.serialize, hof.scope, e, hsubmission, hsubmitted,
      hfind ▸ orRaiseError_eq_ok.mpr ⟨hrepeated, rfl⟩⟩

/-- What an accepted submission leaves behind: the row of the event, which the map agrees with. -/
theorem ingest_accepted (ht : Tables codec limits s) {defaultSource scope : String} {m : Moment}
    (h : (ingest codec limits p defaultSource scope m).run s = .ok (e, s₁)) :
    (submittedValue p e).valid = true ∧ Carries codec limits s₁ scope e ∧
      ∃ a, acceptEnvelope codec limits p defaultSource m = .ok a ∧ a.source = e.source ∧
        a.id = e.id ∧ (comparedBy p a).canonical = (comparedBy p e).canonical := by
  obtain ⟨hscope, proposed, hsubmission, hvalid, hcases⟩ :=
    ingestInTransaction_eq_ok (transaction_eq_ok h)
  obtain ⟨hadmissible, hbound, -⟩ := ht.canonicalSubmission hsubmission
  -- the answer is the canonical submission, and it is stored
  have hanswer : e = proposed ∧ Carries codec limits s₁ scope e := by
    rcases hcases with ⟨row, hfind, hrepeated, rfl⟩ | ⟨hfind, rfl, -, rfl⟩
    · obtain ⟨hrow, hs, hsource, hid⟩ := inboxRow?_eq_some hfind
      obtain ⟨x, hx⟩ := ht.inbox row hrow
      simp only [repeated, except_bind_eq_ok] at hrepeated
      obtain ⟨x', hdecode, _, -, _, -, _, -, hx'⟩ := hrepeated
      obtain rfl : x = x' := Except.ok.inj (hx.decode.symm.trans hdecode)
      cases hx'
      have hcarries : Carries codec limits s₁ scope e := Or.inl ⟨row, hrow, hs, hx⟩
      exact ⟨hbound e hcarries (hx.source.symm.trans hsource) (hx.eventId.symm.trans hid), hcarries⟩
    · exact ⟨rfl, Or.inl ⟨_, List.mem_append_right s.inbox (List.mem_singleton.mpr rfl), rfl,
        hscope, rfl, rfl, rfl, rfl, rfl, hadmissible⟩⟩
  obtain ⟨rfl, hcarries⟩ := hanswer
  refine ⟨hvalid, hcarries, ?_⟩
  simp only [EventStore.canonicalSubmission, except_bind_eq_ok] at hsubmission
  obtain ⟨a, haccept, saved, hknown, hagree⟩ := hsubmission
  cases saved with
  | none =>
    cases hagree
    exact ⟨e, haccept, rfl, rfl, rfl⟩
  | some x =>
    obtain ⟨o, ho, -, hsome⟩ := ht.knownEnvelope scope a
    cases ho.symm.trans hknown
    obtain ⟨-, hsource, hid⟩ := hsome x rfl
    simp only [agreeWithSaved, except_eq_ok, jsonText_eq_ok, not_not] at hagree
    obtain ⟨_, ⟨-, rfl⟩, _, ⟨-, rfl⟩, htext, hx⟩ := hagree
    cases hx
    exact ⟨a, haccept, hsource.symm, hid.symm, htext⟩

/-- The rest of the envelope fits the size limit with the time of the moment. -/
def FitsAt (sys : System) (p : Properties) (defaultSource : String) (m : Moment) : Prop :=
  ∀ e, makeEnvelope p defaultSource m = .ok e → sys.codec.size e.value ≤ sys.limits.maxEventBytes

/-- The map brings its time, or has none and fits at the new time; a `null` time is filled in but
compared, so that it has to be the stored one again. -/
def Repeatable (sys : System) (p : Properties) (defaultSource : String) (e : EventEnvelope)
    (m : Moment) : Prop :=
  p.get "time" ≠ .null ∨ (p.has "time" = false ∧ FitsAt sys p defaultSource m) ∨
    (p.has "time" = true ∧ p.get "time" = .null ∧ m.timeText = e.time)

/-- **Resubmission.**  A map with an id was accepted, and its event is still in the inbox.
Submitting it again answers the same envelope and changes nothing exactly if it is repeatable. -/
theorem ingest_repeated_iff (hs : Reachable sys s) {defaultSource scope : String} {m m' : Moment}
    (hid : (p.get "id").truthy = true)
    (hfirst : (ingest sys.codec sys.limits p defaultSource scope m).run s = .ok (e, s₁))
    (hlater : Steps sys s₁ s₂) {row : InboxRow} (hrow₁ : row ∈ s₁.inbox) (hrow₂ : row ∈ s₂.inbox)
    (hkey : row.scope = scope ∧ row.source = e.source ∧ row.eventId = e.id) :
    (ingest sys.codec sys.limits p defaultSource scope m').run s₂ = .ok (e, s₂) ↔
      Repeatable sys p defaultSource e m' := by
  have hreached : Reachable sys s₁ := by
    have hop : ((Operation.ingest p defaultSource scope m).run sys.codec sys.limits).run s =
        .ok ((), s₁) := ignore_run hfirst
    have hcall := hs.call (.ingest p defaultSource scope m) trivial
    rwa [after_of_ok hop] at hcall
  have ht₁ := hreached.tables
  have ht₂ := (hreached.steps hlater).tables
  obtain ⟨hsubmitted, hcarries, a, haccept, hsource, hid', htext⟩ :=
    ingest_accepted hs.tables hfirst
  obtain ⟨hvalid, hmake, hadmissible⟩ := acceptEnvelope_eq_ok.mp haccept
  -- the retained row carries the answered envelope
  have hof : ArrivalOf sys.codec sys.limits row e := by
    obtain ⟨x, hx⟩ := ht₁.inbox row hrow₁
    have hsame := ht₁.agree scope x e (Or.inl ⟨row, hrow₁, hkey.1, hx⟩) hcarries
      (hx.source.symm.trans hkey.2.1) (hx.eventId.symm.trans hkey.2.2)
    exact hsame ▸ hx
  have hmake' := makeEnvelope_later hmake hid m'
  rw [ingest_retained ht₂ hrow₂ hkey.1 hof hsubmitted hmake' hsource hid']
  have hadmissible' : ∀ t, sys.codec.size ({ a with time := t } : EventEnvelope).value ≤
      sys.limits.maxEventBytes → Admissible sys.codec sys.limits { a with time := t } := by
    intro t hsize
    have hw := hadmissible.wellFormed
    exact ⟨⟨hw.type, hw.id, hw.source, hw.data, hw.extensions⟩,
      (value_valid_time a t).trans hadmissible.valid, hsize, hadmissible.short⟩
  by_cases hnull : p.get "time" = .null
  · rw [if_pos hnull] at hmake' ⊢
    by_cases htime : p.has "time" = true
    · -- the time is filled in, and compared
      constructor
      · rintro ⟨-, heq⟩
        rw [comparedBy, comparedBy, if_pos htime, if_pos htime] at heq
        exact Or.inr (Or.inr ⟨htime, hnull, time_of_canonical hof.admissible.wellFormed heq⟩)
      · rintro (h | ⟨h, -⟩ | ⟨-, -, h⟩)
        · exact absurd hnull h
        · rw [htime] at h
          cases h
        · have hsame : ({ a with time := m'.timeText } : EventEnvelope) = a := by
            rw [comparedBy, comparedBy, if_pos htime, if_pos htime] at htext
            rw [h, ← time_of_canonical hof.admissible.wellFormed htext]
          rw [hsame] at hmake' ⊢
          exact ⟨acceptEnvelope_eq_ok.mpr ⟨hvalid, hmake', hadmissible⟩, htext⟩
    · rw [Bool.not_eq_true] at htime
      rw [comparedBy_time htime]
      constructor
      · rintro ⟨haccept', -⟩
        refine Or.inr (Or.inl ⟨htime, fun x hx => ?_⟩)
        rw [← Except.ok.inj (hmake'.symm.trans hx)]
        exact (acceptEnvelope_eq_ok.mp haccept').2.2.size
      · rintro (h | ⟨-, hfits⟩ | ⟨h, -, -⟩)
        · exact absurd hnull h
        · exact ⟨acceptEnvelope_eq_ok.mpr ⟨hvalid, hmake', hadmissible' _ (hfits _ hmake')⟩, htext⟩
        · rw [htime] at h
          cases h
  · rw [if_neg hnull] at hmake' ⊢
    exact ⟨fun _ => Or.inl hnull,
      fun _ => ⟨acceptEnvelope_eq_ok.mpr ⟨hvalid, hmake', hadmissible⟩, htext⟩⟩

/-- A submission at a point in time, in the plain system. -/
def submitAt (p : Properties) (text : String) : Transaction OwaError EventStore EventEnvelope :=
  ingest plainCodec .standard p "source" "anonymous" ⟨text, "uuid4", 0⟩

/-- An event without a time. -/
def timeless : Properties := [("type", .str "t"), ("id", .str "1")]

def envelopeAt (text : String) : EventEnvelope :=
  ⟨"1", "source", "t", text, none, none, none, .null, [], false⟩

/-- The event without a time is submitted again a second later, and answered as before. -/
theorem ingest_repeated_timeless :
    (submitAt timeless "00:00:01Z").run ((submitAt timeless "00:00:00Z").after initial) =
      .ok (envelopeAt "00:00:00Z", (submitAt timeless "00:00:00Z").after initial) := by
  have hanswer : (submitAt timeless "00:00:00Z").answer initial = .ok (envelopeAt "00:00:00Z") := by
    decide +kernel
  obtain ⟨s₁, hfirst⟩ := answer_eq_ok.mp hanswer
  have hrow : (⟨1, "anonymous", "source", "1", (envelopeAt "00:00:00Z").value, "hash", "hash", 0,
      1⟩ : InboxRow) ∈ ((submitAt timeless "00:00:00Z").after initial).inbox := by
    decide +kernel
  rw [after_of_ok hfirst] at hrow ⊢
  have hfits : FitsAt plainSystem timeless "source" ⟨"00:00:01Z", "uuid4", 0⟩ :=
    fun e _ => (by decide : 1 ≤ 1048576)
  exact (ingest_repeated_iff (initial_reachable plainSystem) (by decide) hfirst .refl hrow hrow
    ⟨rfl, rfl, rfl⟩).mpr (Or.inr (Or.inl ⟨by decide, hfits⟩))

/-- An event whose time is given as `null`. -/
def untimed : Properties := [("type", .str "t"), ("id", .str "1"), ("time", .null)]

/-- The event with a `null` time is refused when it is submitted again a second later, although it
is still in the inbox. -/
theorem ingest_repeated_refused :
    Reachable plainSystem initial ∧ (untimed.get "id").truthy = true ∧
      (submitAt untimed "00:00:00Z").answer initial = .ok (envelopeAt "00:00:00Z") ∧
      ((submitAt untimed "00:00:00Z").after initial).inbox.length = 1 ∧
      (submitAt untimed "00:00:01Z").answer ((submitAt untimed "00:00:00Z").after initial) =
        .error differentContent := by
  refine ⟨initial_reachable _, by decide, ?_, ?_, ?_⟩
  · decide +kernel
  · decide +kernel
  · decide +kernel

end EventStore
