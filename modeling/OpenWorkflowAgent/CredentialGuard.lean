/-
# The literal credential guard

`LiteralCredentialGuard` of credential_guard.py collects the credentials of a prepared call and
takes them out of every text, byte string and nested value that the call returns.  A text is the
list of its code points, surrogates included, as Python has it; `encode` fails on surrogates.

The secrets are replaced one after the other, the longest first, by the marker `[REDACTED]`, or by
nothing when a secret is a part of the marker.  Replacing can spell a secret anew: what stood left
of an occurrence meets the marker or what stood right of it.  `marked` keeps the places where the
replacements cut the text; the guard leaves a secret in its result exactly when one is spelled over
such a cut.
-/
import OpenWorkflowAgent.Replacements
import OpenWorkflowAgent.Values

open Replacement

/-! ## Texts and their encoding -/

/-- A Unicode code point, surrogates included. -/
abbrev CodePoint := Fin 0x110000

abbrev Byte := Fin 256

/-- A Python string. -/
abbrev Text := List CodePoint

namespace Text

def ofString (s : String) : Text := s.toList.map fun c => Fin.ofNat 0x110000 c.toNat

/-- The UTF-8 form of one code point; a surrogate has none. -/
def encodeCodePoint (c : CodePoint) : Option (List Byte) :=
  let n := c.val
  let byte (k : ℕ) : Byte := Fin.ofNat 256 k
  if n < 0x80 then some [byte n]
  else if n < 0x800 then some [byte (0xC0 + n / 0x40), byte (0x80 + n % 0x40)]
  else if 0xD800 ≤ n ∧ n ≤ 0xDFFF then none
  else if n < 0x10000 then
    some [byte (0xE0 + n / 0x1000), byte (0x80 + n / 0x40 % 0x40), byte (0x80 + n % 0x40)]
  else
    some [byte (0xF0 + n / 0x40000), byte (0x80 + n / 0x1000 % 0x40),
      byte (0x80 + n / 0x40 % 0x40), byte (0x80 + n % 0x40)]

/-- `value.encode("utf-8", errors="strict")`. -/
def encode : Text → Option (List Byte)
  | [] => some []
  | c :: cs => do
    let bytes ← encodeCodePoint c
    let rest ← encode cs
    pure (bytes ++ rest)

/-- The code points with a one-byte form. -/
def Ascii (s : Text) : Prop := ∀ c ∈ s, c.val < 0x80

variable {bytes : List Byte}

/-- The first byte tells whether the code point is in the ASCII range. -/
theorem encodeCodePoint_eq_some {c : CodePoint}
    (h : encodeCodePoint c = some bytes) :
    (c.val < 0x80 ∧ bytes = [Fin.ofNat 256 c.val]) ∨
      ∃ b rest, bytes = b :: rest ∧ 0x80 ≤ b.val := by
  have hc := c.isLt
  simp only [encodeCodePoint] at h
  split at h
  · exact .inl ⟨‹_›, (Option.some.inj h).symm⟩
  · right
    split at h
    · refine ⟨_, _, (Option.some.inj h).symm, ?_⟩
      simp only [Fin.val_ofNat]
      omega
    · split at h
      · cases h
      · split at h
        · refine ⟨_, _, (Option.some.inj h).symm, ?_⟩
          simp only [Fin.val_ofNat]
          omega
        · refine ⟨_, _, (Option.some.inj h).symm, ?_⟩
          simp only [Fin.val_ofNat]
          omega

theorem encode_cons_eq_some {c : CodePoint} {cs : Text}
    (h : encode (c :: cs) = some bytes) :
    ∃ first rest, encodeCodePoint c = some first ∧ encode cs = some rest ∧
      bytes = first ++ rest := by
  simp only [encode, Option.bind_eq_bind, Option.bind_eq_some_iff, Option.pure_def,
    Option.some.injEq] at h
  obtain ⟨first, hfirst, rest, hrest, rfl⟩ := h
  exact ⟨first, rest, hfirst, hrest, rfl⟩

theorem encode_ne_nil {s : Text} (hs : s ≠ []) (h : encode s = some bytes) :
    bytes ≠ [] := by
  cases s with
  | nil => exact absurd rfl hs
  | cons =>
    obtain ⟨first, rest, hfirst, -, rfl⟩ := encode_cons_eq_some h
    rcases encodeCodePoint_eq_some hfirst with ⟨-, rfl⟩ | ⟨b, tail, rfl, -⟩ <;> simp

/-- A text whose bytes are all in the ASCII range is written byte by byte. -/
theorem encode_of_ascii_bytes {s : Text} : ∀ {bytes : List Byte}, encode s = some bytes →
    (∀ b ∈ bytes, b.val < 0x80) → Ascii s ∧ bytes = s.map fun c => Fin.ofNat 256 c.val := by
  induction s with
  | nil =>
    intro bytes h _
    exact ⟨fun _ hc => absurd hc List.not_mem_nil, (Option.some.inj h).symm⟩
  | cons _ _ ih =>
    intro bytes h hbytes
    obtain ⟨first, rest, hfirst, hrest, rfl⟩ := encode_cons_eq_some h
    obtain ⟨hascii, hmap⟩ := ih hrest fun b hb => hbytes b (List.mem_append_right _ hb)
    rcases encodeCodePoint_eq_some hfirst with ⟨hc, rfl⟩ | ⟨b, tail, rfl, hb⟩
    · refine ⟨fun d hd => ?_, by rw [hmap]; rfl⟩
      rcases List.mem_cons.mp hd with rfl | hd
      · exact hc
      · exact hascii d hd
    · have := hbytes b (by simp)
      omega

theorem map_byte_injective {s t : Text} (hs : Ascii s) (ht : Ascii t)
    (h : s.map (fun c => (Fin.ofNat 256 c.val : Byte)) = t.map fun c => Fin.ofNat 256 c.val) :
    s = t := by
  induction s generalizing t with
  | nil => simpa using h.symm
  | cons c _ ih =>
    cases t with
    | nil => simp at h
    | cons d =>
      rw [List.map_cons, List.map_cons, List.cons.injEq] at h
      have hc : c.val < 0x80 := hs c List.mem_cons_self
      have hd : d.val < 0x80 := ht d List.mem_cons_self
      have hval : c.val % 256 = d.val % 256 := by
        simpa only [Fin.val_ofNat] using congrArg Fin.val h.1
      have hcd : c = d := Fin.ext (by omega)
      rw [hcd, ih (fun e he => hs e (List.mem_cons_of_mem _ he))
        (fun e he => ht e (List.mem_cons_of_mem _ he)) h.2]

/-- A part of the bytes of an ASCII text is a part of the text. -/
theorem infix_of_encode_infix {s t : Text} (hs : encode s = some bytes)
    (ht : Ascii t) (h : bytes <:+: t.map fun c => Fin.ofNat 256 c.val) : s <:+: t := by
  obtain ⟨part, hpart, hbytes⟩ := List.infix_map_iff.mp h
  have hpartAscii : Ascii part := fun c hc => ht c (hpart.mem hc)
  have hbytesAscii : ∀ b ∈ bytes, b.val < 0x80 := by
    intro b hb
    rw [hbytes] at hb
    obtain ⟨c, hc, rfl⟩ := List.mem_map.mp hb
    have := hpartAscii c hc
    simp only [Fin.val_ofNat]
    omega
  obtain ⟨hascii, hmap⟩ := encode_of_ascii_bytes hs hbytesAscii
  have : s = part := map_byte_injective hascii hpartAscii (hmap.symm.trans hbytes)
  exact this ▸ hpart

end Text

/-! ## The guard -/

/-- `_REPLACEMENT`. -/
def redactionMarker : Text := Text.ofString "[REDACTED]"

def redactionMarkerBytes : List Byte := redactionMarker.map fun c => Fin.ofNat 256 c.val

/-- The captured values.  What `capture` lets in is not empty and has a UTF-8 form. -/
structure LiteralCredentialGuard where
  values : List Text
  bytes : ℕ
  nonempty : ∀ s ∈ values, s ≠ []
  encodable : ∀ s ∈ values, (Text.encode s).isSome

namespace LiteralCredentialGuard

def maxValues : ℕ := 256
def maxValueBytes : ℕ := 65536
def maxTotalBytes : ℕ := 1048576

def empty : LiteralCredentialGuard := ⟨[], 0, by simp, by simp⟩

/-- A value handed to `capture`. -/
inductive Binding where
  | text (s : Text)
  /-- Anything that is not a string. -/
  | other
  deriving DecidableEq

def bindingInvalid : OwaError := .plain .toolError "credential projection binding is invalid"

def bindingLimits : OwaError :=
  .plain .toolError "credential projection binding exceeds finite limits"

/-- The loop of `capture`: what was captured before an error stays captured. -/
def capture (guard : LiteralCredentialGuard) :
    List Binding → LiteralCredentialGuard × Option OwaError
  | [] => (guard, none)
  | .other :: _ => (guard, some bindingInvalid)
  | .text value :: rest =>
    if h : value = [] ∨ value ∈ guard.values then guard.capture rest
    else match hsize : Text.encode value with
      | none => (guard, some bindingInvalid)
      | some encoded =>
        if encoded.length > maxValueBytes ∨ guard.values.length ≥ maxValues ∨
            guard.bytes + encoded.length > maxTotalBytes then (guard, some bindingLimits)
        else
          capture
            { values := value :: guard.values
              bytes := guard.bytes + encoded.length
              nonempty := by
                intro s hs
                rcases List.mem_cons.mp hs with rfl | hs
                · exact fun hnil => h (.inl hnil)
                · exact guard.nonempty s hs
              encodable := by
                intro s hs
                rcases List.mem_cons.mp hs with rfl | hs
                · rw [hsize]; rfl
                · exact guard.encodable s hs } rest

/-- The key of the order in which secrets are replaced: the longest first, then by text. -/
def before (s t : Text) : Prop := t.length < s.length ∨ (s.length = t.length ∧ ¬ t < s)

instance : DecidableRel before := fun s t =>
  inferInstanceAs (Decidable (t.length < s.length ∨ (s.length = t.length ∧ ¬ t < s)))

/-- `sorted(self._values, key=lambda item: (-len(item), item))`. -/
def secrets (guard : LiteralCredentialGuard) : List Text := guard.values.insertionSort before

/-- `any(secret in _REPLACEMENT for secret in self._values)`. -/
def markerSpellsSecret (guard : LiteralCredentialGuard) : Bool :=
  guard.values.any fun s => s <:+: redactionMarker

/-- What a secret is replaced by in a text. -/
def replacement (guard : LiteralCredentialGuard) : Text :=
  if guard.markerSpellsSecret then [] else redactionMarker

/-- What a secret is replaced by in a byte string. -/
def replacementBytes (guard : LiteralCredentialGuard) : List Byte :=
  if guard.markerSpellsSecret then [] else redactionMarkerBytes

/-- The secrets in their UTF-8 form. -/
def secretBytes (guard : LiteralCredentialGuard) : List (List Byte) :=
  guard.secrets.map fun s => (Text.encode s).getD []

def text (guard : LiteralCredentialGuard) (value : Text) : Text :=
  replaceEach guard.replacement guard.secrets value

def raw (guard : LiteralCredentialGuard) (value : List Byte) : List Byte :=
  replaceEach guard.replacementBytes guard.secretBytes value

/-- `contains_literal` of a text. -/
def containsLiteral (guard : LiteralCredentialGuard) (value : Text) : Bool :=
  guard.values.any fun s => s <:+: value

/-- `contains_literal` of a byte string. -/
def containsLiteralBytes (guard : LiteralCredentialGuard) (value : List Byte) : Bool :=
  guard.values.any fun s => (Text.encode s).getD [] <:+: value

/-! ## Nested values -/

/-- A value without texts in it. -/
inductive Atom where
  | null
  | bool (b : Bool)
  | int (n : ℤ)
  | float (x : ℚ)
  deriving DecidableEq

inductive Key where
  | text (s : Text)
  | atom (a : Atom)
  deriving DecidableEq

/-- What `project` is applied to: a JSON value, or one with tuples or keys that are not strings. -/
inductive Item where
  | text (s : Text)
  | list (items : List Item)
  | tuple (items : List Item)
  | dict (fields : List (Key × Item))
  | atom (a : Atom)

def projectionLimits : OwaError := .plain .toolError "credential projection exceeds finite limits"

def conflictingNames : OwaError :=
  .plain .toolError "credential projection contains conflicting field names"

def maxVisited : ℕ := 100000
def maxProjectionDepth : ℕ := 64

/-- Every visited value counts, and the nesting is bounded. -/
def visit (depth visited : ℕ) : Except OwaError ℕ :=
  if visited + 1 > maxVisited ∨ depth > maxProjectionDepth then .error projectionLimits
  else .ok (visited + 1)

/-- The name of a field in the result. -/
def keyName (guard : LiteralCredentialGuard) : Key → Key
  | .text s => .text (guard.text s)
  | .atom a => .atom a

mutual

/-- `selected`, with the count of visited values passed along. -/
def selected (guard : LiteralCredentialGuard) (depth visited : ℕ) :
    Item → Except OwaError (Item × ℕ)
  | .text s => do
    let visited ← visit depth visited
    pure (.text (guard.text s), visited)
  | .atom a => do
    let visited ← visit depth visited
    pure (.atom a, visited)
  | .list items => do
    let visited ← visit depth visited
    let (items, visited) ← selectedItems guard (depth + 1) visited items
    pure (.list items, visited)
  | .tuple items => do
    let visited ← visit depth visited
    let (items, visited) ← selectedItems guard (depth + 1) visited items
    pure (.tuple items, visited)
  | .dict fields => do
    let visited ← visit depth visited
    let (fields, visited) ← selectedFields guard (depth + 1) visited [] fields
    pure (.dict fields, visited)

def selectedItems (guard : LiteralCredentialGuard) (depth visited : ℕ) :
    List Item → Except OwaError (List Item × ℕ)
  | [] => pure ([], visited)
  | item :: items => do
    let (item, visited) ← selected guard depth visited item
    let (items, visited) ← selectedItems guard depth visited items
    pure (item :: items, visited)

/-- The loop over the fields; `names` are those of the result so far. -/
def selectedFields (guard : LiteralCredentialGuard) (depth visited : ℕ) (names : List Key) :
    List (Key × Item) → Except OwaError (List (Key × Item) × ℕ)
  | [] => pure ([], visited)
  | (key, child) :: fields =>
    if guard.keyName key ∈ names then .error conflictingNames
    else do
      let (child, visited) ← selected guard depth visited child
      let (fields, visited) ←
        selectedFields guard depth visited (guard.keyName key :: names) fields
      pure ((guard.keyName key, child) :: fields, visited)

end

def project (guard : LiteralCredentialGuard) (value : Item) : Except OwaError Item :=
  if guard.values = [] then .ok value
  else (selected guard 0 0 value).map Prod.fst

/-- The text of a key, if it is one. -/
def Key.texts : Key → List Text
  | .text s => [s]
  | .atom _ => []

mutual

/-- Every string value and every key of a value. -/
def Item.texts : Item → List Text
  | .text s => [s]
  | .atom _ => []
  | .list items => textsOfItems items
  | .tuple items => textsOfItems items
  | .dict fields => textsOfFields fields

def textsOfItems : List Item → List Text
  | [] => []
  | item :: items => item.texts ++ textsOfItems items

def textsOfFields : List (Key × Item) → List Text
  | [] => []
  | (key, child) :: fields => key.texts ++ (child.texts ++ textsOfFields fields)

end

/-! ## What is replaced -/

theorem mem_secrets (guard : LiteralCredentialGuard) {s : Text} :
    s ∈ guard.secrets ↔ s ∈ guard.values := List.mem_insertionSort before

theorem secret_not_in_replacement (guard : LiteralCredentialGuard) {s : Text}
    (hs : s ∈ guard.values) : ¬ s <:+: guard.replacement := by
  rw [replacement]
  split
  · intro h
    exact guard.nonempty s hs (List.infix_nil.mp h)
  · rename_i hspells
    intro h
    exact hspells (List.any_eq_true.mpr ⟨s, hs, by simpa using h⟩)

theorem redactionMarker_ascii : Text.Ascii redactionMarker := by
  have h : redactionMarker.all (fun c => decide (c.val < 0x80)) = true := by decide +kernel
  simpa only [Text.Ascii, List.all_eq_true, decide_eq_true_eq] using h

theorem secretBytes_not_in_replacement (guard : LiteralCredentialGuard) {s : Text}
    (hs : s ∈ guard.values) : ¬ (Text.encode s).getD [] <:+: guard.replacementBytes := by
  obtain ⟨bytes, hbytes⟩ := Option.isSome_iff_exists.mp (guard.encodable s hs)
  rw [hbytes, Option.getD_some, replacementBytes]
  split
  · intro h
    exact Text.encode_ne_nil (guard.nonempty s hs) hbytes (List.infix_nil.mp h)
  · rename_i hspells
    intro h
    have := Text.infix_of_encode_infix hbytes redactionMarker_ascii h
    exact hspells (List.any_eq_true.mpr ⟨s, hs, by simpa using this⟩)

/-- The text with the cuts its redaction makes. -/
def marked (guard : LiteralCredentialGuard) (value : Text) : Marked CodePoint :=
  replaceEachMarked guard.replacement guard.secrets (uncut value)

/-- The byte string with the cuts its redaction makes. -/
def markedBytes (guard : LiteralCredentialGuard) (value : List Byte) : Marked Byte :=
  replaceEachMarked guard.replacementBytes guard.secretBytes (uncut value)

/-- No secret is spelled over a cut that redacting the text makes. -/
def Seamless (guard : LiteralCredentialGuard) (value : Text) : Prop :=
  ∀ s ∈ guard.values, ¬ SpelledOverCut s (guard.marked value)

/-- No secret is spelled over a cut that redacting the byte string makes. -/
def SeamlessBytes (guard : LiteralCredentialGuard) (value : List Byte) : Prop :=
  ∀ s ∈ guard.values, ¬ SpelledOverCut ((Text.encode s).getD []) (guard.markedBytes value)

theorem containsLiteral_text (guard : LiteralCredentialGuard) (value : Text) :
    guard.containsLiteral (guard.text value) = false ↔ guard.Seamless value := by
  have hne : ∀ s ∈ guard.secrets, s ≠ [] := fun s hs => guard.nonempty s (guard.mem_secrets.mp hs)
  have hnew : ∀ s ∈ guard.secrets, ¬ s <:+: guard.replacement := fun s hs =>
    guard.secret_not_in_replacement (guard.mem_secrets.mp hs)
  rw [containsLiteral, List.any_eq_false]
  refine forall₂_congr fun s hs => ?_
  rw [decide_eq_true_eq, text, infix_replaceEach_iff hne hnew value (guard.mem_secrets.mpr hs)]
  rfl

theorem containsLiteralBytes_raw (guard : LiteralCredentialGuard) (value : List Byte) :
    guard.containsLiteralBytes (guard.raw value) = false ↔ guard.SeamlessBytes value := by
  have hne : ∀ b ∈ guard.secretBytes, b ≠ [] := by
    intro b hb
    obtain ⟨s, hs, rfl⟩ := List.mem_map.mp hb
    have hmem := guard.mem_secrets.mp hs
    obtain ⟨bytes, hbytes⟩ := Option.isSome_iff_exists.mp (guard.encodable s hmem)
    rw [hbytes]
    exact Text.encode_ne_nil (guard.nonempty s hmem) hbytes
  have hnew : ∀ b ∈ guard.secretBytes, ¬ b <:+: guard.replacementBytes := by
    intro b hb
    obtain ⟨s, hs, rfl⟩ := List.mem_map.mp hb
    exact guard.secretBytes_not_in_replacement (guard.mem_secrets.mp hs)
  rw [containsLiteralBytes, List.any_eq_false]
  refine forall₂_congr fun s hs => ?_
  have hmem : (Text.encode s).getD [] ∈ guard.secretBytes :=
    List.mem_map_of_mem (guard.mem_secrets.mpr hs)
  rw [decide_eq_true_eq, raw, infix_replaceEach_iff hne hnew value hmem]
  rfl

/-! ## The texts of a projected value -/

theorem visit_bind_eq_ok {β : Type} {depth visited : ℕ} {f : ℕ → Except OwaError β} {b : β}
    (h : (visit depth visited >>= f) = .ok b) : ∃ n, f n = .ok b := by
  rw [visit] at h
  split at h
  · cases h
  · exact ⟨_, h⟩

theorem bind_eq_ok {β γ : Type} {x : Except OwaError β} {f : β → Except OwaError γ} {c : γ}
    (h : (x >>= f) = .ok c) : ∃ b, x = .ok b ∧ f b = .ok c := by
  cases x with
  | error => cases h
  | ok b => exact ⟨b, rfl, h⟩

theorem texts_keyName (guard : LiteralCredentialGuard) (key : Key) :
    (guard.keyName key).texts = key.texts.map guard.text := by
  cases key <;> rfl

mutual

theorem texts_selected (guard : LiteralCredentialGuard) {depth visited : ℕ} :
    ∀ {item : Item} {result : Item × ℕ}, selected guard depth visited item = .ok result →
      result.1.texts = item.texts.map guard.text
  | .text s, result, h => by
    obtain ⟨n, hn⟩ := visit_bind_eq_ok h
    cases hn
    simp [Item.texts]
  | .atom a, result, h => by
    obtain ⟨n, hn⟩ := visit_bind_eq_ok h
    cases hn
    simp [Item.texts]
  | .list items, result, h => by
    obtain ⟨n, hn⟩ := visit_bind_eq_ok h
    obtain ⟨inner, hinner, hresult⟩ := bind_eq_ok hn
    cases hresult
    simpa only [Item.texts] using texts_selectedItems guard hinner
  | .tuple items, result, h => by
    obtain ⟨n, hn⟩ := visit_bind_eq_ok h
    obtain ⟨inner, hinner, hresult⟩ := bind_eq_ok hn
    cases hresult
    simpa only [Item.texts] using texts_selectedItems guard hinner
  | .dict fields, result, h => by
    obtain ⟨n, hn⟩ := visit_bind_eq_ok h
    obtain ⟨inner, hinner, hresult⟩ := bind_eq_ok hn
    cases hresult
    simpa only [Item.texts] using texts_selectedFields guard hinner

theorem texts_selectedItems (guard : LiteralCredentialGuard) {depth visited : ℕ} :
    ∀ {items : List Item} {result : List Item × ℕ},
      selectedItems guard depth visited items = .ok result →
      textsOfItems result.1 = (textsOfItems items).map guard.text
  | [], result, h => by
    cases h
    rfl
  | item :: items, result, h => by
    rw [selectedItems] at h
    obtain ⟨first, hfirst, h⟩ := bind_eq_ok h
    obtain ⟨rest, hrest, h⟩ := bind_eq_ok h
    cases h
    rw [textsOfItems, textsOfItems, List.map_append, texts_selected guard hfirst,
      texts_selectedItems guard hrest]

theorem texts_selectedFields (guard : LiteralCredentialGuard) {depth visited : ℕ} :
    ∀ {names : List Key} {fields : List (Key × Item)} {result : List (Key × Item) × ℕ},
      selectedFields guard depth visited names fields = .ok result →
      textsOfFields result.1 = (textsOfFields fields).map guard.text
  | names, [], result, h => by
    cases h
    rfl
  | names, (key, child) :: fields, result, h => by
    rw [selectedFields] at h
    split at h
    · cases h
    · obtain ⟨first, hfirst, h⟩ := bind_eq_ok h
      obtain ⟨rest, hrest, h⟩ := bind_eq_ok h
      cases h
      rw [textsOfFields, textsOfFields, List.map_append, List.map_append, texts_keyName,
        texts_selected guard hfirst, texts_selectedFields guard hrest]

end

theorem text_of_values_eq_nil {guard : LiteralCredentialGuard} (h : guard.values = [])
    (value : Text) : guard.text value = value := by
  simp [text, secrets, h, replaceEach]

theorem texts_project (guard : LiteralCredentialGuard) {item result : Item}
    (h : guard.project item = .ok result) : result.texts = item.texts.map guard.text := by
  rw [project] at h
  split at h
  · rename_i hnil
    cases h
    rw [List.map_congr_left fun s _ => text_of_values_eq_nil hnil s, List.map_id']
  · cases hsel : selected guard 0 0 item with
    | error =>
      rw [hsel] at h
      cases h
    | ok =>
      rw [hsel] at h
      cases h
      exact texts_selected guard hsel

/-! ## Completeness -/

/-- The guard after capturing these secrets. -/
def capturing (values : List String) : LiteralCredentialGuard :=
  (empty.capture (values.map fun s => .text (Text.ofString s))).1

end LiteralCredentialGuard
