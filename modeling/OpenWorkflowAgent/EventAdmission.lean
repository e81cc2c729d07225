/-
# Admitted envelopes

What `ingest` and `publish_effect` store can be read back: an accepted envelope is well formed, its
properties make the same envelope again at any later time, and so its stored text decodes to it.

`Admissible` collects what `_envelope` has checked of an envelope.
-/
import OpenWorkflowAgent.EventStore

open Transaction

/-! ## Properties -/

namespace Properties

variable {p q : Properties} {name : String}

@[simp] theorem has_nil : Properties.has [] name = false := rfl

@[simp] theorem get_nil : Properties.get [] name = .null := rfl

theorem has_cons {f : String × Json} :
    Properties.has (f :: p) name = (decide (f.1 = name) || Properties.has p name) := rfl

theorem get_cons {f : String × Json} :
    Properties.get (f :: p) name = if f.1 = name then f.2 else Properties.get p name := by
  unfold Properties.get Json.field?
  by_cases h : f.1 = name
  · simp [h]
  · simp [h]

theorem has_append : Properties.has (p ++ q) name = (p.has name || q.has name) := by
  unfold Properties.has
  rw [List.any_append]

theorem get_of_not_has (h : p.has name = false) : p.get name = .null := by
  induction p with
  | nil => rfl
  | cons f p ih =>
    rw [has_cons, Bool.or_eq_false_iff, decide_eq_false_iff_not] at h
    rw [get_cons, if_neg h.1, ih h.2]

end Properties

/-! ## Envelopes and their properties -/

/-- What `_make_envelope` and the identity checks guarantee. -/
structure EventEnvelope.WellFormed (e : EventEnvelope) : Prop where
  type : e.type ≠ ""
  id : e.id ≠ ""
  source : e.source ≠ ""
  data : e.data ≠ .null → e.dataPresent = true
  extensions : ∀ f ∈ e.extensions, f.1 ∉ knownNames

section Envelope

variable {e : EventEnvelope} {p : Properties} {source : String} {m : Moment}

theorem makeEnvelope_eq_ok : makeEnvelope p source m = .ok e ↔
    p.get "type" = .str e.type ∧ e.type ≠ "" ∧ orDefault (p.get "id") m.uuid = .str e.id ∧
      orDefault (p.get "source") source = .str e.source ∧
      timeOrNow (p.get "time") m.timeText = .str e.time ∧
      optionalString (p.get "subject") "subject" = .ok e.subject ∧
      optionalString (p.get "datacontenttype") "datacontenttype" = .ok e.datacontenttype ∧
      optionalString (p.get "dataschema") "dataschema" = .ok e.dataschema ∧
      e.data = p.get "data" ∧ e.extensions = p.filter (fun f => f.1 ∉ knownNames) ∧
      e.dataPresent = p.has "data" := by
  have hstr : ∀ (v : Json) (message text : String),
      requireString v message = .ok text ↔ v = .str text := by
    intro v message text
    cases v <;> simp [requireString]
  simp only [makeEnvelope, except_eq_ok, hstr]
  constructor
  · rintro ⟨type, htype, hne, id, hid, src, hsrc, time, htime, subject, hsubject, ct, hct, schema,
      hschema, he⟩
    cases he
    exact ⟨htype, hne, hid, hsrc, htime, hsubject, hct, hschema, rfl, rfl, rfl⟩
  · rintro ⟨htype, hne, hid, hsrc, htime, hsubject, hct, hschema, hdata, hext, hpresent⟩
    refine ⟨e.type, htype, hne, e.id, hid, e.source, hsrc, e.time, htime, e.subject, hsubject,
      e.datacontenttype, hct, e.dataschema, hschema, ?_⟩
    rw [← hdata, ← hext, ← hpresent]
    rfl

theorem wellFormed_of_make (h : makeEnvelope p source m = .ok e) (hid : e.id ≠ "")
    (hsource : e.source ≠ "") : e.WellFormed := by
  obtain ⟨-, htype, -, -, -, -, -, -, hdata, hext, hpresent⟩ := makeEnvelope_eq_ok.mp h
  refine ⟨htype, hid, hsource, fun hne => ?_, fun f hf => ?_⟩
  · -- a map without `data` makes `data` null
    rw [hpresent]
    by_contra hhas
    rw [hdata] at hne
    exact hne (Properties.get_of_not_has (Bool.not_eq_true _ ▸ hhas))
  · rw [hext, List.mem_filter] at hf
    exact of_decide_eq_true hf.2

@[simp] theorem has_optionalField {name name' : String} {o : Option String} :
    Properties.has (optionalField name o) name' = (o.isSome && decide (name = name')) := by
  cases o <;> simp [optionalField, Properties.has_cons]

theorem has_extensions (h : e.WellFormed) (name : String) (hname : name ∈ knownNames) :
    e.extensions.has name = false := by
  unfold Properties.has
  rw [List.any_eq_false]
  intro f hf
  rw [decide_eq_true_eq]
  rintro rfl
  exact h.extensions f hf hname

/-- The part of the properties that the map may lack. -/
def EventEnvelope.optionalPart (e : EventEnvelope) : Properties :=
  optionalField "subject" e.subject ++ (optionalField "datacontenttype" e.datacontenttype ++
    (optionalField "dataschema" e.dataschema ++
      ((if e.data ≠ .null ∨ e.dataPresent then [("data", e.data)] else []) ++ e.extensions)))

/-- The four required names are no names of the optional part. -/
theorem get_asDict {name : String} (h : name ∉ ["id", "source", "type", "time"]) :
    e.asDict.get name = e.optionalPart.get name := by
  simp only [List.mem_cons, List.not_mem_nil, or_false, not_or] at h
  obtain ⟨hid, hsource, htype, htime⟩ := h
  show Properties.get (_ :: _ :: _ :: _ :: e.optionalPart) name = _
  simp [Properties.get_cons, Ne.symm hid, Ne.symm hsource, Ne.symm htype, Ne.symm htime]

theorem filter_asDict (h : e.WellFormed) :
    e.asDict.filter (fun f => f.1 ∉ knownNames) = e.extensions := by
  have hknown : ∀ (name : String) {o : Option String}, name ∈ knownNames →
      (optionalField name o).filter (fun f => decide (f.1 ∉ knownNames)) = [] := by
    intro name o hname
    cases o <;> simp [optionalField, hname]
  have hext : e.extensions.filter (fun f => decide (f.1 ∉ knownNames)) = e.extensions := by
    rw [List.filter_eq_self]
    intro f hf
    exact decide_eq_true (h.extensions f hf)
  have hdata : ∀ c : Prop, [Decidable c] → (if c then [("data", e.data)] else []).filter
      (fun f => decide (f.1 ∉ knownNames)) = [] := by
    intro c _
    split
    · simp [knownNames]
    · rfl
  show List.filter _ (_ :: _ :: _ :: _ :: e.optionalPart) = _
  simp only [EventEnvelope.optionalPart, List.filter_append, hext, hdata,
    hknown "subject" (by decide), hknown "datacontenttype" (by decide),
    hknown "dataschema" (by decide), List.nil_append, List.filter_cons]
  simp [knownNames]

theorem get_dataField (h : e.WellFormed) {name : String} : Properties.get
    ((if e.data ≠ .null ∨ e.dataPresent then [("data", e.data)] else []) ++ e.extensions) name =
      if name = "data" then e.data else e.extensions.get name := by
  have hnull := Properties.get_of_not_has (has_extensions h "data" (by decide))
  by_cases hname : name = "data"
  · subst hname
    by_cases hdata : e.data ≠ .null ∨ e.dataPresent = true
    · rw [if_pos hdata, if_pos rfl, List.singleton_append, Properties.get_cons, if_pos rfl]
    · rw [if_neg hdata, if_pos rfl, List.nil_append, hnull]
      exact (not_not.mp (not_or.mp hdata).1).symm
  · rw [if_neg hname]
    split
    · rw [List.singleton_append, Properties.get_cons, if_neg (Ne.symm hname)]
    · rfl

/-- A text that may be absent, in front of properties that do not have its name. -/
theorem get_optionalField_append {name name' : String} {o : Option String} {p : Properties}
    (hp : p.get name = .null) : Properties.get (optionalField name o ++ p) name' =
      if name' = name then o.elim .null .str else p.get name' := by
  cases o with
  | none =>
    by_cases hname : name' = name
    · subst hname
      rw [if_pos rfl]
      exact hp
    · rw [if_neg hname]
      rfl
  | some text =>
    simp only [optionalField, List.singleton_append, Properties.get_cons, Option.elim_some,
      eq_comm]

theorem get_optionalPart (h : e.WellFormed) {name : String} : e.optionalPart.get name =
    if name = "subject" then e.subject.elim .null .str
    else if name = "datacontenttype" then e.datacontenttype.elim .null .str
    else if name = "dataschema" then e.dataschema.elim .null .str
    else if name = "data" then e.data else e.extensions.get name := by
  have hschema := Properties.get_of_not_has (has_extensions h "dataschema" (by decide))
  have hct := Properties.get_of_not_has (has_extensions h "datacontenttype" (by decide))
  have hsubject := Properties.get_of_not_has (has_extensions h "subject" (by decide))
  have h₁ : ∀ name, Properties.get (optionalField "dataschema" e.dataschema ++
      ((if e.data ≠ .null ∨ e.dataPresent then [("data", e.data)] else []) ++ e.extensions)) name =
      if name = "dataschema" then e.dataschema.elim .null .str
      else if name = "data" then e.data else e.extensions.get name := by
    intro name
    rw [get_optionalField_append (by rw [get_dataField h, if_neg (by decide), hschema]),
      get_dataField h]
  have h₂ : ∀ name, Properties.get (optionalField "datacontenttype" e.datacontenttype ++
      (optionalField "dataschema" e.dataschema ++
        ((if e.data ≠ .null ∨ e.dataPresent then [("data", e.data)] else []) ++ e.extensions)))
        name =
      if name = "datacontenttype" then e.datacontenttype.elim .null .str
      else if name = "dataschema" then e.dataschema.elim .null .str
      else if name = "data" then e.data else e.extensions.get name := by
    intro name
    rw [get_optionalField_append (by rw [h₁, if_neg (by decide), if_neg (by decide), hct]), h₁]
  unfold EventEnvelope.optionalPart
  rw [get_optionalField_append
    (by rw [h₂, if_neg (by decide), if_neg (by decide), if_neg (by decide), hsubject]), h₂]

/-- The properties have data exactly if the map the envelope was made from had it. -/
theorem has_data_asDict (h : e.WellFormed) : e.asDict.has "data" = e.dataPresent := by
  have hext := has_extensions h "data" (by decide)
  simp only [EventEnvelope.asDict, Properties.has_append, has_optionalField, hext]
  by_cases hdata : e.data ≠ .null ∨ e.dataPresent = true
  · rw [if_pos hdata, hdata.elim h.data id]
    simp [Properties.has_cons]
  · rw [if_neg hdata, Bool.eq_false_iff.mpr (not_or.mp hdata).2]
    simp [Properties.has_cons]

theorem makeEnvelope_asDict (h : e.WellFormed) : makeEnvelope e.asDict source m = .ok e := by
  have hoptional : ∀ {o : Option String} {name : String},
      optionalString (o.elim .null .str) name = .ok o := by
    intro o name
    cases o <;> rfl
  rw [makeEnvelope_eq_ok]
  refine ⟨?_, h.type, ?_, ?_, ?_, ?_, ?_, ?_, ?_, (filter_asDict h).symm,
    (has_data_asDict h).symm⟩
  · simp [EventEnvelope.asDict, Properties.get_cons]
  · simp [EventEnvelope.asDict, Properties.get_cons, orDefault, Json.truthy, h.id]
  · simp [EventEnvelope.asDict, Properties.get_cons, orDefault, Json.truthy, h.source]
  · simp [EventEnvelope.asDict, Properties.get_cons, timeOrNow]
  · rw [get_asDict (by decide), get_optionalPart h, if_pos rfl, hoptional]
  · rw [get_asDict (by decide), get_optionalPart h, if_neg (by decide), if_pos rfl, hoptional]
  · rw [get_asDict (by decide), get_optionalPart h, if_neg (by decide), if_neg (by decide),
      if_pos rfl, hoptional]
  · rw [get_asDict (by decide), get_optionalPart h, if_neg (by decide), if_neg (by decide),
      if_neg (by decide), if_pos rfl]

/-- The envelope as its text is read back. -/
def EventEnvelope.normal (e : EventEnvelope) : EventEnvelope :=
  { e with data := e.data.canonical, extensions := e.extensions.sorted }

theorem makeEnvelope_sorted (h : makeEnvelope p source m = .ok e) : makeEnvelope p.sorted source m = .ok e.normal := by
  have hdefault : ∀ (v : Json) (d text : String), orDefault v d = .str text →
      orDefault v.canonical d = .str text := by
    intro v d text hv
    match v with
    | .arr [] | .obj [] => exact hv
    | .arr (_ :: _) | .obj (_ :: _) => cases hv
    | .null | .bool _ | .int _ | .float _ | .str _ | .foreign => exact hv
  have hnow : ∀ (v : Json) (now text : String), timeOrNow v now = .str text →
      timeOrNow v.canonical now = .str text := by
    intro v now text
    cases v <;> simp [timeOrNow, Json.canonical]
  have hoptional : ∀ (v : Json) (name : String),
      optionalString v.canonical name = optionalString v name := by
    intro v name
    cases v <;> rfl
  obtain ⟨htype, hne, hid, hsource, htime, hsubject, hct, hschema, hdata, hext, hpresent⟩ :=
    makeEnvelope_eq_ok.mp h
  refine makeEnvelope_eq_ok.mpr ?_
  simp only [Properties.get_canonical, hoptional, Properties.has_sorted]
  refine ⟨by rw [htype]; rfl, hne, hdefault _ _ _ hid, hdefault _ _ _ hsource, hnow _ _ _ htime,
    hsubject, hct, hschema, congrArg Json.canonical hdata, ?_, hpresent⟩
  rw [Properties.filter_sorted fun name => name ∉ knownNames]
  exact congrArg Properties.sorted hext

theorem EventEnvelope.normal_value (e : EventEnvelope) :
    e.normal.value.canonical = e.value.canonical := by
  have hext : Json.canonicalFields e.extensions.sorted = e.extensions.sorted := by
    rw [Properties.sorted, Json.canonicalFields_insertionSort, Properties.sorted,
      Json.canonicalFields_canonicalFields]
  have happend : ∀ p q : Properties, Json.canonicalFields (p ++ q) =
      Json.canonicalFields p ++ Json.canonicalFields q := by
    intro p q
    simp only [Properties.canonicalFields_eq_map, List.map_append]
  -- sorting the extensions first makes no difference
  have hsort : ∀ p q : Properties, (p ++ q.insertionSort fun a b => a.1 ≤ b.1).insertionSort
      (fun a b => a.1 ≤ b.1) = (p ++ q).insertionSort fun a b => a.1 ≤ b.1 := by
    intro p q
    induction p with
    | nil => exact (List.pairwise_insertionSort _ q).insertionSort_eq
    | cons f p ih => rw [List.cons_append, List.insertionSort_cons, ih]; rfl
  have hnull : e.data.canonical = .null ↔ e.data = .null := by
    cases e.data <;> simp [Json.canonical]
  simp only [EventEnvelope.value, Json.canonical, EventEnvelope.asDict, EventEnvelope.normal,
    happend, hext, ← List.append_assoc, hsort, ne_eq, hnull]
  split <;> simp [Json.canonicalFields, Json.canonical_canonical]

end Envelope

/-! ## Accepted envelopes -/

namespace EventStore

variable {codec : EventCodec} {limits : EventStoreLimits} {e : EventEnvelope} {p : Properties}
  {source : String} {m : Moment}

theorem jsonText_eq_ok {v text : Json} :
    jsonText v = .ok text ↔ v.valid = true ∧ v.canonical = text := by
  unfold jsonText
  by_cases hv : v.valid = true
  · simp [hv]
  · simp [hv]

/-- What `_envelope` has checked of an envelope. -/
structure Admissible (codec : EventCodec) (limits : EventStoreLimits) (e : EventEnvelope) :
    Prop where
  wellFormed : e.WellFormed
  valid : e.value.valid = true
  size : codec.size e.value ≤ limits.maxEventBytes
  short : e.id.length ≤ 1024

theorem acceptEnvelope_eq_ok : acceptEnvelope codec limits p source m = .ok e ↔
    (Json.obj p).valid = true ∧ makeEnvelope p source m = .ok e ∧ Admissible codec limits e := by
  have hchecked : acceptEnvelope codec limits p source m = .ok e ↔
      makeChecked codec limits p source m = .ok e := by
    unfold acceptEnvelope
    cases makeChecked codec limits p source m with
    | ok e' => rfl
    | error err => simp
  rw [hchecked]
  simp only [makeChecked, except_eq_ok, jsonText_eq_ok, Bool.not_eq_false, not_lt, not_or]
  constructor
  · rintro ⟨hvalid, e', hmake, _, ⟨hev, rfl⟩, hsize, ⟨hid, hsource, hshort⟩, he⟩
    cases he
    exact ⟨hvalid, hmake, wellFormed_of_make hmake hid hsource, hev, hsize, hshort⟩
  · rintro ⟨hvalid, hmake, hwell, hev, hsize, hshort⟩
    exact ⟨hvalid, e, hmake, _, ⟨hev, rfl⟩, hsize, ⟨hwell.id, hwell.source, hshort⟩, rfl⟩

theorem acceptEnvelope_asDict (h : Admissible codec limits e) :
    acceptEnvelope codec limits e.asDict source m = .ok e :=
  acceptEnvelope_eq_ok.mpr ⟨h.valid, makeEnvelope_asDict h.wellFormed, h⟩

theorem decodeEnvelope_value (hwell : e.WellFormed) (hvalid : e.value.valid = true) :
    decodeEnvelope codec e.value (codec.digest e.value) = .ok e := by
  have hchecked : decodeChecked codec e.value (codec.digest e.value) = .ok e := by
    show (jsonText e.value >>= _) = Except.ok e
    simp only [except_eq_ok, jsonText_eq_ok, not_not]
    exact ⟨_, ⟨hvalid, rfl⟩, rfl, e, makeEnvelope_asDict hwell, _, ⟨hvalid, rfl⟩, rfl, rfl⟩
  unfold decodeEnvelope
  rw [hchecked]

/-- **Stored envelopes decode to themselves.**  The text of an accepted envelope is read back, under
its digest, as an envelope with the same properties. -/
theorem stored_envelope_decodes {loads : String → Except OwaError Json}
    (h : acceptEnvelope codec limits p source m = .ok e)
    (hloads : loads (codec.text e.value.canonical) = .ok e.value.canonical) :
    ∃ e', decodeText codec loads (codec.text e.value.canonical) (codec.digest e.value) = .ok e' ∧
      (Json.obj e'.asDict).canonical = (Json.obj e.asDict).canonical := by
  obtain ⟨-, -, hadmissible⟩ := acceptEnvelope_eq_ok.mp h
  have hvalid : e.value.canonical.valid = true :=
    (Json.validAt_canonical 0 e.value).trans hadmissible.valid
  have hnormal : e.normal.value.valid = true := by
    rw [Json.valid, ← Json.validAt_canonical, e.normal_value]
    exact hvalid
  have hmake : makeEnvelope e.asDict.sorted "" readingMoment = .ok e.normal :=
    makeEnvelope_sorted (makeEnvelope_asDict hadmissible.wellFormed)
  have hchecked : decodeChecked codec e.value.canonical (codec.digest e.value) = .ok e.normal := by
    show (jsonText e.value.canonical >>= _) = Except.ok e.normal
    simp only [except_eq_ok, jsonText_eq_ok, not_not]
    exact ⟨_, ⟨hvalid, rfl⟩, by rw [Json.canonical_canonical]; rfl, e.normal, hmake, _,
      ⟨hnormal, rfl⟩, by rw [Json.canonical_canonical, e.normal_value], rfl⟩
  refine ⟨e.normal, ?_, e.normal_value⟩
  simp only [decodeText, hloads, decodeEnvelope, hchecked]

/-- An event with two extensions, out of order, and an object as its data. -/
def extendedEvent : Properties :=
  [("type", .str "t"), ("zone", .null), ("id", .str "1"), ("area", .int 1),
    ("data", .obj [("b", .int 2), ("a", .int 1)])]

def extendedEnvelope : EventEnvelope :=
  ⟨"1", "s", "t", "now", none, none, none, .obj [("b", .int 2), ("a", .int 1)],
    [("zone", .null), ("area", .int 1)], true⟩

/-- The stored text of the event is read back, in order. -/
theorem stored_envelope_decodes_extended :
    ∃ e', decodeText ⟨fun _ => "", fun _ => "hash", fun _ => 1, fun _ _ => "", fun _ => "text"⟩
        (fun _ => .ok extendedEnvelope.value.canonical) "text" "hash" = .ok e' ∧
      (Json.obj e'.asDict).canonical = (Json.obj extendedEnvelope.asDict).canonical :=
  stored_envelope_decodes
    (by decide +kernel : acceptEnvelope _ .standard extendedEvent "s" readingMoment =
      .ok extendedEnvelope) rfl

/-! ## The same map at another time -/

theorem value_valid_time (e : EventEnvelope) (t : String) :
    ({ e with time := t } : EventEnvelope).value.valid = e.value.valid := by
  simp only [EventEnvelope.value, EventEnvelope.asDict, Json.valid, Json.validAt, List.cons_append,
    List.nil_append, Json.validFieldsAt]

/-- The envelope that a map with an id makes differs with the moment only in its time, and only if
the map has none. -/
theorem makeEnvelope_later (h : makeEnvelope p source m = .ok e) (hid : (p.get "id").truthy = true)
    (m' : Moment) : makeEnvelope p source m' =
      .ok { e with time := if p.get "time" = .null then m'.timeText else e.time } := by
  obtain ⟨htype, hne, hid', hsource, htime, hrest⟩ := makeEnvelope_eq_ok.mp h
  refine makeEnvelope_eq_ok.mpr ⟨htype, hne, ?_, hsource, ?_, hrest⟩
  · unfold orDefault at hid' ⊢
    rw [if_pos hid] at hid' ⊢
    exact hid'
  · unfold timeOrNow at htime ⊢
    by_cases hnull : p.get "time" = .null
    · rw [if_pos hnull, if_pos hnull]
    · rw [if_neg hnull] at htime
      rw [if_neg hnull, if_neg hnull, htime]

end EventStore
