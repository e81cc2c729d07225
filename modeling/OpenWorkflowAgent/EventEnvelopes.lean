/-
# Event envelopes

`events.py` and the head of `event_store.py`: the canonical form of an event, the bounds of the
store, and the records that listeners are told about.

An envelope is made of a property map, with a generated id, a default source and the current time
where the map has none.  Two values have the same text exactly when their canonical trees are equal,
so texts are compared as canonical trees; `EventCodec` brings the hash of a text and its length.
-/
import OpenWorkflowAgent.EffectJournal

/-! ## Values -/

namespace Json

/-- The truth value of `x or y`. -/
def truthy : Json → Bool
  | .null => false
  | .bool b => b
  | .int n => n ≠ 0
  | .float x => x ≠ 0
  | .str s => s ≠ ""
  | .arr items => items ≠ []
  | .obj fields => fields ≠ []
  | .foreign => true

end Json

/-- A mapping from names to values, as a JSON object has it. -/
abbrev Properties := List (String × Json)

/-- `properties.get(name)`. -/
def Properties.get (p : Properties) (name : String) : Json := ((Json.obj p).field? name).getD .null

/-- `name in properties`. -/
def Properties.has (p : Properties) (name : String) : Bool := p.any fun f => f.1 = name

/-! ## Canonical form -/

section Sorting

variable {α : Type} {r : α → α → Prop} [DecidableRel r]

theorem filter_orderedInsert [IsTrans α r] {q : α → Bool} {a : α} (ha : q a = true) :
    ∀ {l : List α}, l.Pairwise r →
      (l.orderedInsert r a).filter q = (l.filter q).orderedInsert r a := by
  intro l hl
  induction hl with
  | nil => simp [ha]
  | @cons b l hb hl ih =>
    by_cases hab : r a b
    · rw [List.orderedInsert_cons_of_le _ _ hab, List.filter_cons_of_pos ha]
      -- what the filter keeps is not below `b`, so `a` stays in front
      cases hkept : (b :: l).filter q with
      | nil => rfl
      | cons c kept =>
        have hc : c ∈ b :: l := List.mem_of_mem_filter (hkept ▸ List.mem_cons_self)
        have hac : r a c := by
          rcases List.mem_cons.mp hc with rfl | hc
          · exact hab
          · exact IsTrans.trans _ _ _ hab (hb c hc)
        rw [List.orderedInsert_cons_of_le _ _ hac]
    · rw [List.orderedInsert_of_not_le _ _ hab]
      by_cases hq : q b = true
      · rw [List.filter_cons_of_pos hq, List.filter_cons_of_pos hq, ih,
          List.orderedInsert_of_not_le _ _ hab]
      · rw [List.filter_cons_of_neg hq, List.filter_cons_of_neg hq, ih]

/-- Sorting keeps the order of equals, so it does not matter whether entries are left out before it
or after it. -/
theorem filter_insertionSort [IsTrans α r] [Std.Total r] (q : α → Bool) (l : List α) :
    (l.insertionSort r).filter q = (l.filter q).insertionSort r := by
  induction l with
  | nil => rfl
  | cons a l ih =>
    by_cases ha : q a = true
    · rw [List.insertionSort_cons, filter_orderedInsert ha (List.pairwise_insertionSort r l), ih,
        List.filter_cons_of_pos ha, List.insertionSort_cons]
    · rw [List.insertionSort_cons, List.filter_cons_of_neg ha, ← ih]
      rw [List.orderedInsert_eq_take_drop, List.filter_append, List.filter_cons_of_neg ha,
        ← List.filter_append, List.takeWhile_append_dropWhile]

end Sorting

namespace Properties

/-- The fields in order of their names, each in its canonical form. -/
abbrev sorted (p : Properties) : Properties :=
  (Json.canonicalFields p).insertionSort fun a b => a.1 ≤ b.1

instance : IsTrans (String × Json) fun a b => a.1 ≤ b.1 := ⟨fun _ _ _ => le_trans⟩

instance : Std.Total fun a b : String × Json => a.1 ≤ b.1 := ⟨fun a b => le_total a.1 b.1⟩

theorem canonicalFields_eq_map (p : Properties) :
    Json.canonicalFields p = p.map fun f => (f.1, f.2.canonical) := by
  induction p with
  | nil => rfl
  | cons _ _ ih => rw [Json.canonicalFields, ih, List.map_cons]

theorem filter_sorted (q : String → Bool) (p : Properties) :
    p.sorted.filter (fun f => q f.1) = sorted (p.filter fun f => q f.1) := by
  rw [sorted, filter_insertionSort, sorted, canonicalFields_eq_map, canonicalFields_eq_map,
    List.filter_map]
  rfl

/-- Sorting the fields of an object does not change what its names stand for. -/
theorem get_canonical (p : Properties) (name : String) :
    Properties.get p.sorted name = (p.get name).canonical := by
  have hsame : (sorted (p.filter fun f => f.1 = name)) =
      Json.canonicalFields (p.filter fun f => f.1 = name) := by
    refine List.Pairwise.insertionSort_eq (List.pairwise_of_forall_mem_list ?_)
    intro f hf g hg
    rw [canonicalFields_eq_map] at hf hg
    simp only [List.mem_map, List.mem_filter, decide_eq_true_eq] at hf hg
    obtain ⟨_, ⟨-, rfl⟩, rfl⟩ := hf
    obtain ⟨_, ⟨-, hname⟩, rfl⟩ := hg
    exact hname.ge
  show ((p.sorted.find? fun f => f.1 = name).map Prod.snd).getD .null =
    (((p.find? fun f => f.1 = name).map Prod.snd).getD .null).canonical
  rw [← List.head?_filter, filter_sorted (· = name), hsame, ← List.head?_filter,
    canonicalFields_eq_map, List.head?_map]
  cases (p.filter fun f => f.1 = name).head? <;> rfl

theorem has_sorted (p : Properties) (name : String) : p.sorted.has name = p.has name := by
  unfold Properties.has
  rw [(List.perm_insertionSort _ _).any_eq, canonicalFields_eq_map, List.any_map]
  rfl

end Properties

namespace Json

theorem canonicalFields_insertionSort (p : Properties) :
    canonicalFields (p.insertionSort fun a b => a.1 ≤ b.1) = p.sorted := by
  rw [Properties.sorted, Properties.canonicalFields_eq_map, Properties.canonicalFields_eq_map]
  exact List.map_insertionSort _ _ _ _ fun _ _ _ _ => Iff.rfl

theorem validFieldsAt_eq_all (d : ℕ) (p : Properties) :
    validFieldsAt d p = p.all fun f => validAt d f.2 := by
  induction p with
  | nil => rfl
  | cons _ _ ih => rw [validFieldsAt, ih, List.all_cons]

mutual

/-- What is read back is written as it was. -/
theorem canonical_canonical : ∀ v : Json, v.canonical.canonical = v.canonical
  | .arr items => by rw [canonical, canonical, canonicalItems_canonicalItems]
  | .obj fields => by
    rw [canonical, canonical, canonicalFields_insertionSort, Properties.sorted,
      canonicalFields_canonicalFields,
      (List.pairwise_insertionSort _ (canonicalFields fields)).insertionSort_eq]
  | .null | .bool _ | .int _ | .float _ | .str _ | .foreign => rfl

theorem canonicalItems_canonicalItems : ∀ items : List Json,
    canonicalItems (canonicalItems items) = canonicalItems items
  | [] => rfl
  | v :: vs => by
    rw [canonicalItems, canonicalItems, canonical_canonical v, canonicalItems_canonicalItems vs]

theorem canonicalFields_canonicalFields : ∀ fields : List (String × Json),
    canonicalFields (canonicalFields fields) = canonicalFields fields
  | [] => rfl
  | (k, v) :: fs => by
    rw [canonicalFields, canonicalFields, canonical_canonical v,
      canonicalFields_canonicalFields fs]

end

mutual

theorem validAt_canonical : ∀ (d : ℕ) (v : Json), v.canonical.validAt d = v.validAt d
  | d, .arr items => by rw [canonical, validAt, validAt, validItemsAt_canonicalItems]
  | d, .obj fields => by
    rw [canonical, validAt, validAt, validFieldsAt_eq_all,
      (List.perm_insertionSort _ (canonicalFields fields)).all_eq, ← validFieldsAt_eq_all,
      validFieldsAt_canonicalFields]
  | _, .null | _, .bool _ | _, .int _ | _, .float _ | _, .str _ | _, .foreign => rfl

theorem validItemsAt_canonicalItems : ∀ (d : ℕ) (items : List Json),
    validItemsAt d (canonicalItems items) = validItemsAt d items
  | _, [] => rfl
  | d, v :: vs => by
    rw [canonicalItems, validItemsAt, validAt_canonical d v, validItemsAt_canonicalItems d vs,
      validItemsAt]

theorem validFieldsAt_canonicalFields : ∀ (d : ℕ) (fields : List (String × Json)),
    validFieldsAt d (canonicalFields fields) = validFieldsAt d fields
  | _, [] => rfl
  | d, (k, v) :: fs => by
    rw [canonicalFields, validFieldsAt, validAt_canonical d v, validFieldsAt_canonicalFields d fs,
      validFieldsAt]

end

end Json

/-! ## Texts -/

/-- The text of a value, and what is computed from it. -/
structure EventCodec where
  /-- `EffectIdentity.key`. -/
  key : EffectIdentity → String
  /-- SHA-256 of the text of a canonical value. -/
  hash : Json → String
  /-- The length of the text of a canonical value, in bytes. -/
  bytes : Json → ℕ
  /-- The hash of `effect_request_digest`. -/
  request : String → Json → String
  /-- The text itself, which `read: raw` projects. -/
  text : Json → String

namespace EventCodec

variable (codec : EventCodec)

/-- `_digest`. -/
def digest (v : Json) : String := codec.hash v.canonical

/-- `len(_json(value).encode())`. -/
def size (v : Json) : ℕ := codec.bytes v.canonical

end EventCodec

/-! ## Envelopes -/

/-- `EventEnvelope`. -/
structure EventEnvelope where
  id : String
  source : String
  type : String
  time : String
  subject : Option String
  datacontenttype : Option String
  dataschema : Option String
  data : Json
  extensions : Properties
  dataPresent : Bool
  deriving DecidableEq

def optionalField (name : String) : Option String → Properties
  | none => []
  | some text => [(name, .str text)]

/-- `as_dict`. -/
def EventEnvelope.asDict (e : EventEnvelope) : Properties :=
  [("id", .str e.id), ("source", .str e.source), ("type", .str e.type), ("time", .str e.time)] ++
    (optionalField "subject" e.subject ++ (optionalField "datacontenttype" e.datacontenttype ++
      (optionalField "dataschema" e.dataschema ++
        ((if e.data ≠ .null ∨ e.dataPresent then [("data", e.data)] else []) ++ e.extensions))))

def EventEnvelope.value (e : EventEnvelope) : Json := .obj e.asDict

/-- The names that are not extensions. -/
def knownNames : List String :=
  ["id", "source", "type", "time", "subject", "datacontenttype", "dataschema", "data"]

/-- `_optional_string`. -/
def optionalString (value : Json) (name : String) : Except OwaError (Option String) :=
  match value with
  | .null => .ok none
  | .str text => .ok (some text)
  | _ => .error (.plain .valueError ("event " ++ name ++ " must be a string"))

def requireString (value : Json) (message : String) : Except OwaError String :=
  match value with
  | .str text => .ok text
  | _ => .error (.plain .valueError message)

/-- What a call brings from outside: the text of the current time, a fresh `uuid4`, and the clock of
the process. -/
structure Moment where
  timeText : String
  uuid : String
  clock : ℚ

/-- `value or default`. -/
def orDefault (value : Json) (default : String) : Json := if value.truthy then value else .str default

/-- The time of an event: the current one where the map has none. -/
def timeOrNow (value : Json) (now : String) : Json := if value = .null then .str now else value

/-- `_make_envelope`. -/
def makeEnvelope (p : Properties) (defaultSource : String) (m : Moment) :
    Except OwaError EventEnvelope := do
  let type ← requireString (p.get "type") "event type must be a non-empty string"
  raiseIf (type = "") (.plain .valueError "event type must be a non-empty string")
  let id ← requireString (orDefault (p.get "id") m.uuid) "event id and source must be strings"
  let source ← requireString (orDefault (p.get "source") defaultSource)
    "event id and source must be strings"
  let time ← requireString (timeOrNow (p.get "time") m.timeText)
    "event time must be an RFC 3339 string"
  let subject ← optionalString (p.get "subject") "subject"
  let datacontenttype ← optionalString (p.get "datacontenttype") "datacontenttype"
  let dataschema ← optionalString (p.get "dataschema") "dataschema"
  pure ⟨id, source, type, time, subject, datacontenttype, dataschema, p.get "data",
    p.filter (fun f => f.1 ∉ knownNames), p.has "data"⟩

/-! ## Bounds -/

/-- `EventStoreLimits`; `__post_init__` refuses any other value. -/
structure EventStoreLimits where
  maxEventBytes : ℕ
  maxRetainedEvents : ℕ
  maxRetainedBytes : ℕ
  maxSubscriptions : ℕ
  maxOutbox : ℕ
  scanBatch : ℕ
  retentionSeconds : ℚ
  positive : 0 < maxEventBytes ∧ 0 < maxRetainedEvents ∧ 0 < maxRetainedBytes ∧
    0 < maxSubscriptions ∧ 0 < maxOutbox ∧ 0 < scanBatch ∧ 0 < retentionSeconds

/-- `EventStoreLimits()`. -/
def EventStoreLimits.standard : EventStoreLimits :=
  ⟨1048576, 10000, 67108864, 1000, 10000, 128, 86400, by norm_num⟩

/-! ## Registrations and decisions -/

/-- `EventRegistration`. -/
structure EventRegistration where
  identity : EffectIdentity
  requestDigest : String
  scope : String
  deriving DecidableEq

namespace EventRegistration

variable (r : EventRegistration)

/-- `receipt_identity`. -/
def receiptIdentity : EffectIdentity :=
  r.identity.withOperation "listen:registration:v1" (by decide)

/-- The occurrence of the event with the ordinal `k + 1`. -/
def eventOccurrence (k : ℕ) : List (String × ℕ) :=
  r.identity.occurrence ++ [(r.identity.taskReference ++ "/@event", k + 1)]

theorem eventOccurrence_placed (k : ℕ) : r.eventOccurrence k ≠ [] ∧
    ∀ step ∈ r.eventOccurrence k, step.1 ≠ "" ∧ 1 ≤ step.2 := by
  refine ⟨by simp [eventOccurrence], fun step hstep => ?_⟩
  rcases List.mem_append.mp hstep with h | h
  · exact r.identity.placed.2 step h
  · rw [List.mem_singleton.mp h]
    exact ⟨append_ne_empty _ r.identity.named.2.2.1, Nat.succ_pos k⟩

/-- `event_identity` of the ordinal `k + 1`. -/
def eventIdentity (k : ℕ) : EffectIdentity :=
  { r.identity with
    occurrence := r.eventOccurrence k
    operation := "listen:event:v1"
    named := ⟨r.identity.named.1, r.identity.named.2.1, r.identity.named.2.2.1, by decide⟩
    placed := r.eventOccurrence_placed k }

/-- `decision_identity` of the ordinal `k + 1`. -/
def decisionIdentity (k : ℕ) : EffectIdentity :=
  (r.eventIdentity k).withOperation "listen:progress:v1" (by decide)

end EventRegistration

/-- `EventDecision`. -/
structure EventDecision where
  filterIndices : List ℕ
  correlations : Properties
  terminal : Bool
  terminator : Bool
  progress : Properties
  deriving DecidableEq

/-- What a matcher reads of a listener or a trigger. -/
structure MatchProgress where
  correlations : Properties
  matchedFilters : List ℕ
  progress : Properties
  deriving DecidableEq

/-- `EventProgress`. -/
structure EventProgress extends MatchProgress where
  registration : EventRegistration
  events : List EventEnvelope
  cursor : ℕ
  completed : Bool
  closed : Bool
  selected : Option EventEnvelope
  eventReceipt : Option EffectReceipt
  receipt : Option EffectReceipt
  decisionOrdinal : ℕ
  decisionReceipt : Option EffectReceipt

/-- A matcher: the decision on an event, if it is one for this listener. -/
abbrev EventEvaluator := EventEnvelope → MatchProgress → Except OwaError (Option EventDecision)
