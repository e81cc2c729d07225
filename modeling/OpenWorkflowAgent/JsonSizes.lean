/-
# Sizes of JSON texts

The bytes of `json.dumps(value, ensure_ascii=False)`.  A quotation mark, a backslash and the
control characters with a name take two bytes in a text, and the other control characters six.
-/
import OpenWorkflowAgent.Values

/-- The bytes of a character in a JSON text. -/
def escapedChar (c : Char) : ℕ :=
  if c = '"' ∨ c = '\\' ∨ c.toNat ∈ [8, 9, 10, 12, 13] then 2
  else if c.toNat < 32 then 6 else c.utf8Size

/-- The bytes of a text in JSON, without its quotation marks. -/
def escapedSize (text : String) : ℕ := (text.toList.map escapedChar).sum

theorem escapedSize_replicate (n : ℕ) (c : Char) :
    escapedSize (String.ofList (List.replicate n c)) = n * escapedChar c := by
  simp [escapedSize]

theorem utf8ByteSize_replicate (n : ℕ) (c : Char) :
    (String.ofList (List.replicate n c)).utf8ByteSize = n * c.utf8Size := by
  induction n with
  | zero => simp
  | succ n ih =>
    rw [List.replicate_succ, ← List.singleton_append, String.ofList_append,
      String.utf8ByteSize_append, ih, ← String.singleton_eq_ofList,
      String.utf8ByteSize_singleton]
    ring

namespace Json

mutual

/-- The bytes of a value as JSON; `number` gives those of a number with a fraction. -/
def dumpSize (number : ℚ → ℕ) : Json → ℕ
  | .null => 4
  | .bool b => if b then 4 else 5
  | .int n => (toString n).utf8ByteSize
  | .float x => number x
  | .str text => escapedSize text + 2
  | .arr items => dumpItemsSize number items + 2
  | .obj fields => dumpFieldsSize number fields + 2
  | .foreign => 0

/-- The items with `, ` between them. -/
def dumpItemsSize (number : ℚ → ℕ) : List Json → ℕ
  | [] => 0
  | v :: vs => dumpSize number v + (if vs.isEmpty then 0 else 2) + dumpItemsSize number vs

/-- The fields with `: ` and `, ` between them. -/
def dumpFieldsSize (number : ℚ → ℕ) : List (String × Json) → ℕ
  | [] => 0
  | (k, v) :: fs =>
    escapedSize k + 4 + dumpSize number v + (if fs.isEmpty then 0 else 2) +
      dumpFieldsSize number fs

end

end Json
