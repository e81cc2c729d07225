/-
# Values and errors

The JSON values that inputs, outputs, errors and events carry, and the errors
the runtime raises.

`Json` is the ordered tree that a stored text encodes: integers and floats stay
apart, a float is the exact rational it denotes, and the fields of an object keep
their order.  `foreign` stands for a value that JSON has no form for, such as a
non-finite float or a mapping with a key that is not a string.  `canonical` is
the tree that `json.dumps(…, sort_keys=True)` writes.
-/
import Mathlib

inductive Json where
  | null
  | bool (b : Bool)
  | int (n : ℤ)
  | float (x : ℚ)
  | str (s : String)
  | arr (items : List Json)
  | obj (fields : List (String × Json))
  | foreign
  deriving Repr, Inhabited

namespace Json

/-! ## Decidable equality

The tree nests lists of itself, so the instance is written by hand. -/

mutual

def decEq : (a b : Json) → Decidable (a = b)
  | .null, b => match b with
    | .null => isTrue rfl
    | .bool _ | .int _ | .float _ | .str _ | .arr _ | .obj _ | .foreign => isFalse (by simp)
  | .foreign, b => match b with
    | .foreign => isTrue rfl
    | .null | .bool _ | .int _ | .float _ | .str _ | .arr _ | .obj _ => isFalse (by simp)
  | .bool x, b => match b with
    | .bool y => if h : x = y then isTrue (by rw [h]) else isFalse (by simpa using h)
    | .null | .int _ | .float _ | .str _ | .arr _ | .obj _ | .foreign => isFalse (by simp)
  | .int x, b => match b with
    | .int y => if h : x = y then isTrue (by rw [h]) else isFalse (by simpa using h)
    | .null | .bool _ | .float _ | .str _ | .arr _ | .obj _ | .foreign => isFalse (by simp)
  | .float x, b => match b with
    | .float y => if h : x = y then isTrue (by rw [h]) else isFalse (by simpa using h)
    | .null | .bool _ | .int _ | .str _ | .arr _ | .obj _ | .foreign => isFalse (by simp)
  | .str x, b => match b with
    | .str y => if h : x = y then isTrue (by rw [h]) else isFalse (by simpa using h)
    | .null | .bool _ | .int _ | .float _ | .arr _ | .obj _ | .foreign => isFalse (by simp)
  | .arr x, b => match b with
    | .arr y => match decEqItems x y with
      | isTrue h => isTrue (by rw [h])
      | isFalse h => isFalse (by simpa using h)
    | .null | .bool _ | .int _ | .float _ | .str _ | .obj _ | .foreign => isFalse (by simp)
  | .obj x, b => match b with
    | .obj y => match decEqFields x y with
      | isTrue h => isTrue (by rw [h])
      | isFalse h => isFalse (by simpa using h)
    | .null | .bool _ | .int _ | .float _ | .str _ | .arr _ | .foreign => isFalse (by simp)

def decEqItems : (a b : List Json) → Decidable (a = b)
  | [], [] => isTrue rfl
  | [], _ :: _ => isFalse (by simp)
  | _ :: _, [] => isFalse (by simp)
  | x :: xs, y :: ys => match decEq x y, decEqItems xs ys with
    | isTrue h, isTrue h' => isTrue (by rw [h, h'])
    | isFalse h, _ => isFalse (by simp [h])
    | _, isFalse h => isFalse (by simp [h])

def decEqFields : (a b : List (String × Json)) → Decidable (a = b)
  | [], [] => isTrue rfl
  | [], _ :: _ => isFalse (by simp)
  | _ :: _, [] => isFalse (by simp)
  | (k, x) :: xs, (l, y) :: ys =>
    if hk : k = l then
      match decEq x y, decEqFields xs ys with
      | isTrue h, isTrue h' => isTrue (by rw [hk, h, h'])
      | isFalse h, _ => isFalse (by simp [h])
      | _, isFalse h => isFalse (by simp [h])
    else isFalse (by simp [hk])

end

instance : DecidableEq Json := decEq

/-! ## Validation of expression data -/

/-- The interoperable integer range, `MAX_SAFE_INTEGER`. -/
def maxSafeInteger : ℤ := 2 ^ 53 - 1

/-- The nesting that `validate_expression_data` accepts. -/
def maxDepth : ℕ := 64

mutual

/-- `validate_expression_data` at a given depth: it raises exactly when this is
`false`. -/
def validAt (depth : ℕ) : Json → Bool
  | .null | .bool _ | .str _ => depth ≤ maxDepth
  | .int n => depth ≤ maxDepth ∧ |n| ≤ maxSafeInteger
  | .float x => depth ≤ maxDepth ∧ (x.den = 1 → |x.num| ≤ maxSafeInteger)
  | .arr items => decide (depth ≤ maxDepth) && validItemsAt (depth + 1) items
  | .obj fields => decide (depth ≤ maxDepth) && validFieldsAt (depth + 1) fields
  | .foreign => false

def validItemsAt (depth : ℕ) : List Json → Bool
  | [] => true
  | v :: vs => validAt depth v && validItemsAt depth vs

def validFieldsAt (depth : ℕ) : List (String × Json) → Bool
  | [] => true
  | (_, v) :: fs => validAt depth v && validFieldsAt depth fs

end

/-- `validate_expression_data` accepts the value. -/
def valid (v : Json) : Bool := validAt 0 v

/-! ## Canonical form -/

mutual

/-- The value as `json.dumps(…, sort_keys=True)` writes it: the fields of every
object in order of their names. -/
def canonical : Json → Json
  | .arr items => .arr (canonicalItems items)
  | .obj fields => .obj ((canonicalFields fields).insertionSort fun a b => a.1 ≤ b.1)
  | v => v

def canonicalItems : List Json → List Json
  | [] => []
  | v :: vs => v.canonical :: canonicalItems vs

def canonicalFields : List (String × Json) → List (String × Json)
  | [] => []
  | (k, v) :: fs => (k, v.canonical) :: canonicalFields fs

end

/-- The field of an object, if the value is an object that has it. -/
def field? (name : String) : Json → Option Json
  | .obj fields => (fields.find? fun f => f.1 = name).map Prod.snd
  | _ => none

end Json

/-! ## Errors -/

/-- The classes of errors the modelled operations raise. -/
inductive ErrorKind where
  | valueError
  | expressionError
  | workflowExecutionError
  | workflowDefinitionChanged
  | invocationStateError
  | invocationStateConflict
  /-- `_EffectRecoveryRequired`, a `WorkflowExecutionError`. -/
  | effectRecoveryRequired
  /-- `AuthorizationOutcomeUnavailable`, a `WorkflowExecutionError`. -/
  | authorizationOutcomeUnavailable
  /-- `asyncio.CancelledError`, which no `except Exception` catches. -/
  | cancelledError
  /-- An exception outside the error contract. -/
  | otherException
  | invocationCancelled
  | workflowSemanticError
  | unsupportedWorkflowFeature
  | toolError
  | modelError
  | agentError
  | knowledgeError
  | memoryError
  | keyError
  | scheduleValidationError
  | scheduleOperationConflict
  /-- `ExecutionAuthorizationError`. -/
  | executionAuthorizationError
  | eventValidationError
  /-- `EventTriggerBackpressure`, an `EventValidationError`. -/
  | eventTriggerBackpressure
  /-- An error of the database itself, such as a violated primary key. -/
  | storageError
  | lifecycleHistoryError
  | lookupError
  | bufferError
  | runtimeError
  | approvalValidationError
  | approvalAuthorizationError
  | approvalNotFound
  | approvalConflict
  deriving DecidableEq, Repr

/-- An error: its class, its message and its details. -/
structure OwaError where
  kind : ErrorKind
  message : String
  details : List (String × Json)
  deriving DecidableEq, Repr

/-- The classes under `WorkflowExecutionError`. -/
def ErrorKind.isWorkflowExecution : ErrorKind → Bool
  | .workflowExecutionError | .effectRecoveryRequired | .authorizationOutcomeUnavailable => true
  | _ => false

def OwaError.plain (kind : ErrorKind) (message : String) : OwaError := ⟨kind, message, []⟩

/-- The error of `validate_expression_data`. -/
def invalidExpressionData : OwaError :=
  ⟨.expressionError,
    "expression data must be finite JSON with safe integers and bounded nesting",
    [("reason", .str "invalid_json")]⟩

/-! ## Identifiers -/

theorem append_ne_empty {a : String} (b : String) (h : a ≠ "") : a ++ b ≠ "" := by
  intro hempty
  have hlist := congrArg String.toList hempty
  rw [String.toList_append, String.toList_empty, List.append_eq_nil_iff] at hlist
  exact h (String.toList_injective hlist.1)

/-- A lower-case hexadecimal digit. -/
def isHexDigit (c : Char) : Bool := c.isDigit || ('a' ≤ c && c ≤ 'f')

/-- `uuid.UUID(text).hex == text` for a text of 32 characters: lower-case
hexadecimal digits only. -/
def isUuidHex (text : String) : Bool :=
  text.toList.length = 32 ∧ text.toList.all isHexDigit

/-- A SHA-256 digest in hexadecimal, `[a-f0-9]{64}`. -/
def isSha256Hex (text : String) : Bool :=
  text.toList.length = 64 ∧ text.toList.all isHexDigit

/-- `str(uuid.UUID(text)) == text`: hexadecimal digits in groups of 8, 4, 4, 4
and 12. -/
def isUuidText (text : String) : Bool :=
  text.toList.length = 36 ∧ text.toList.zipIdx.all fun c =>
    if c.2 ∈ [8, 13, 18, 23] then c.1 = '-' else isHexDigit c.1
