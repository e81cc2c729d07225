/-
# Reusable definitions

`definitions.py`.  `definition_at_pointer` looks a definition up by the text of a JSON pointer.
`resolve_reusable_components` copies a workflow with its named timeouts, errors and retry policies
put in, and then refuses reusable functions that call each other too deeply: `calls` collects the
functions that a definition calls, and `visit` measures the chains of calls.

Task definitions are plain JSON here, as in the source: what is a task, and what is a list of
tasks, is decided by the place where it stands.  Definitions nest as deep as the interpreter of the
source lets its functions recurse; `depth` is that limit, and past it a `RecursionError` is raised.
Where the source would fail on a value of the wrong shape it raises an exception outside the
error contract.
-/
import OpenWorkflowAgent.Values
import OpenWorkflowAgent.Pointers
import OpenWorkflowAgent.DepthSearch

open Transaction

/-! ## Texts of pointers -/

namespace Pointer

/-- `text.replace("~d", "c")` for one escape. -/
def replaceEscape (digit c : Char) : List Char → List Char
  | [] => []
  | [d] => [d]
  | d :: e :: rest =>
    if d = '~' ∧ e = digit then c :: replaceEscape digit c rest
    else d :: replaceEscape digit c (e :: rest)

/-- `token.replace("~1", "/").replace("~0", "~")`. -/
def pointerName (token : List Char) : String :=
  String.ofList (replaceEscape '0' '~' (replaceEscape '1' '/' token))

/-- `reference.lstrip("/").split("/")`, each part unescaped. -/
def tokens (reference : String) : List String :=
  ((reference.toList.dropWhile fun c => c = '/').splitOn '/').map pointerName

/-- `int(name)` of a name that is a decimal number. -/
def decimal? (name : String) : Option ℕ :=
  if name ≠ "" ∧ name.toList.all Char.isDigit then some (Nat.ofDigitChars 10 name.toList 0)
  else none

end Pointer

/-! ## Plain values -/

namespace Json

/-- An exception outside of the error contract. -/
def shapeError (message : String) : OwaError := .plain .otherException message

/-- What iterating a value gives: a mapping gives its keys and a text its characters. -/
def iterate : Json → Except OwaError (List Json)
  | .arr items => .ok items
  | .obj fields => .ok (fields.map fun field => .str field.1)
  | .str text => .ok (text.toList.map fun c => .str c.toString)
  | _ => .error (shapeError "value is not iterable")

/-- `value.items()`. -/
def entries : Json → Except OwaError (List (String × Json))
  | .obj fields => .ok fields
  | _ => .error (shapeError "value has no items")

/-- `value.get(name, default)`. -/
def getOr (value : Json) (name : String) (default : Json) : Except OwaError Json :=
  match value with
  | .obj fields => .ok ((field? name (.obj fields)).getD default)
  | _ => .error (shapeError "value has no fields")

/-- `name in value` and `value[name] = update(value[name])`, for a mapping. -/
def updateField (name : String) (update : Json → Except OwaError Json) :
    Json → Except OwaError Json
  | .obj fields =>
    match field? name (.obj fields) with
    | none => .ok (.obj fields)
    | some value => do
        let updated ← update value
        return .obj (fields.map fun field => if field.1 = name then (name, updated) else field)
  | _ => .error (shapeError "value has no fields")

/-- An update of mappings only. -/
def whenMapping (update : Json → Except OwaError Json) : Json → Except OwaError Json
  | .obj fields => update (.obj fields)
  | other => .ok other

/-- One step of a lookup; whatever is missing is `None`. -/
def lookUp (value : Json) (name : String) : Json :=
  match value with
  | .obj fields => (field? name (.obj fields)).getD .null
  | .arr items => ((Pointer.decimal? name).bind fun index => items[index]?).getD .null
  | _ => .null

end Json

namespace Definitions

/-- `definition_at_pointer`. -/
def definitionAtPointer (source : Json) (reference : String) : Json :=
  (Pointer.tokens reference).foldl Json.lookUp source

/-! ## Named components -/

/-- An error of the definition of a workflow, with the reference it is about. -/
def semanticError (message : String) (reference : Pointer) : OwaError :=
  ⟨.workflowSemanticError, message, [("reference", .str (Pointer.text reference))]⟩

/-- The limit of the recursion of the source. -/
def recursionError : OwaError := .plain .otherException "maximum recursion depth exceeded"

/-- `resolve`: the component of a section that a text names. -/
def resolve (use : Json) (part : String) (reference : Pointer) (value : Json) :
    Except OwaError Json :=
  match value with
  | .str name => do
      let components ← use.getOr part (.obj [])
      orRaise (components.field? name)
        (semanticError ("unknown reusable " ++ part ++ " reference") reference)
  | other => .ok other

/-- The tasks of one item of a list, each under its name. -/
def resolveItem (task : Pointer → Json → Except OwaError Json) (start : Pointer) (item : Json) :
    Except OwaError Json := do
  let fields ← item.entries
  let resolved ← fields.mapM fun field => do
    let definition ← task (start ++ [field.1]) field.2
    return (field.1, definition)
  return .obj resolved

/-- `tasks`: the tasks of the items of a list.  What is not a list passes when iterating it gives
nothing. -/
def resolveTasks (task : Pointer → Json → Except OwaError Json) (reference : Pointer) :
    Json → Except OwaError Json
  | .arr items => do
      let resolved ← items.zipIdx.mapM fun item =>
        resolveItem task (reference ++ [toString item.2]) item.1
      return .arr resolved
  | other => do
      let items ← other.iterate
      raiseIf (items ≠ []) (Json.shapeError "value has no items")
      return other

/-- The branches of a fork; a fork without branches is a `KeyError`. -/
def resolveBranches (task : Pointer → Json → Except OwaError Json) (reference : Pointer)
    (fork : Json) : Except OwaError Json := do
  raiseIf (fork.field? "branches" = none) (OwaError.plain .keyError "branches")
  fork.updateField "branches" (resolveTasks task reference)

/-- `catch`: its retry policy and its tasks. -/
def resolveCatch (use : Json) (task : Pointer → Json → Except OwaError Json) (reference : Pointer)
    (clause : Json) : Except OwaError Json := do
  let clause ← clause.updateField "retry" (resolve use "retries" (reference ++ ["retry"]))
  clause.updateField "do" (resolveTasks task (reference ++ ["do"]))

/-- `foreach`, of listeners only. -/
def resolveIterator (task : Pointer → Json → Except OwaError Json) (reference : Pointer)
    (value : Json) : Except OwaError Json :=
  if (value.field? "listen").isSome then
    value.updateField "foreach" (Json.whenMapping
      (Json.updateField "do" (resolveTasks task (reference ++ ["foreach", "do"]))))
  else .ok value

/-- `task`. -/
def resolveTask (use : Json) : ℕ → Pointer → Json → Except OwaError Json
  | 0, _, _ => .error recursionError
  | depth + 1, reference, value => do
      let value ← value.updateField "timeout" (resolve use "timeouts" (reference ++ ["timeout"]))
      let value ← value.updateField "raise" (Json.whenMapping
        (Json.updateField "error" (resolve use "errors" (reference ++ ["raise", "error"]))))
      let value ← value.updateField "catch" (Json.whenMapping
        (resolveCatch use (resolveTask use depth) (reference ++ ["catch"])))
      let value ← value.updateField "do" (resolveTasks (resolveTask use depth) (reference ++ ["do"]))
      let value ← value.updateField "try"
        (resolveTasks (resolveTask use depth) (reference ++ ["try"]))
      let value ← resolveIterator (resolveTask use depth) reference value
      value.updateField "fork" (Json.whenMapping
        (resolveBranches (resolveTask use depth) (reference ++ ["fork", "branches"])))

/-- The functions of a workflow, each with its components put in. -/
def resolveFunctions (use : Json) (depth : ℕ) (functions : Json) : Except OwaError Json := do
  let fields ← functions.entries
  let resolved ← fields.mapM fun field => do
    let definition ← resolveTask use depth ["use", "functions", field.1] field.2
    return (field.1, definition)
  return .obj resolved

/-- The reusable components that a workflow owns. -/
def componentsOf (workflow : Json) : Json := (workflow.field? "use").getD (.obj [])

/-- The first half of `resolve_reusable_components`: the named components are put in. -/
def resolveComponents (depth : ℕ) (workflow : Json) : Except OwaError Json := do
  let use := componentsOf workflow
  let workflow ← workflow.updateField "timeout" (resolve use "timeouts" ["timeout"])
  raiseIf (workflow.field? "do" = none) (OwaError.plain .keyError "do")
  let workflow ← workflow.updateField "do" (resolveTasks (resolveTask use depth) ["do"])
  workflow.updateField "use" (Json.updateField "functions" (resolveFunctions use depth))

/-! ## Calls between functions -/

def itemDefinitions (items : Json) : Except OwaError (List Json) := do
  let items ← items.iterate
  let definitions ← items.mapM fun item => do
    let fields ← item.entries
    return fields.map Prod.snd
  return definitions.flatten

def iteratorTasks (value : Json) : Except OwaError Json :=
  match value.field? "listen", value.field? "foreach" with
  | some _, some (.obj fields) => Json.getOr (.obj fields) "do" (.arr [])
  | _, _ => .ok (.arr [])

def nestedDefinitions (value : Json) : Except OwaError (List Json) := do
  let sequence ← value.getOr "do" (.arr [])
  let sequence ← itemDefinitions sequence
  let attempt ← value.getOr "try" (.arr [])
  let attempt ← itemDefinitions attempt
  let iterator ← iteratorTasks value
  let iterator ← itemDefinitions iterator
  let clause ← value.getOr "catch" (.obj [])
  let handler ← clause.getOr "do" (.arr [])
  let handler ← itemDefinitions handler
  let fork ← value.getOr "fork" (.obj [])
  let branches ← fork.getOr "branches" (.arr [])
  let branches ← itemDefinitions branches
  return sequence ++ attempt ++ iterator ++ handler ++ branches

/-- The function that a definition calls itself. -/
def ownCall (functions : Json) (value : Json) : List String :=
  match value.field? "call" with
  | some (.str name) => if (functions.field? name).isSome then [name] else []
  | _ => []

/-- `calls`: the functions that a definition calls, itself or in a nested task. -/
def calls (functions : Json) : ℕ → Json → Except OwaError (List String)
  | 0, _ => .error recursionError
  | depth + 1, .obj fields => do
      let nested ← nestedDefinitions (.obj fields)
      let found ← nested.mapM (calls functions depth)
      return ownCall functions (.obj fields) ++ found.flatten
  | _ + 1, _ => .ok []

/-- `dependencies`: the functions with the functions that they call. -/
def dependencies (functions : Json) (depth : ℕ) :
    Except OwaError (List (String × List String)) := do
  let fields ← functions.entries
  fields.mapM fun field => do
    let found ← calls functions depth field.2
    return (field.1, found)

/-- The order in which a set is iterated: any order, with the same members. -/
structure SetOrder where
  list : List String → List String
  mem_list : ∀ names name, name ∈ list names ↔ name ∈ names

/-- How many functions a chain of calls may have. -/
def chainLimit : ℕ := 32

def successors (order : SetOrder) (found : List (String × List String)) (name : String) :
    List String :=
  order.list ((found.lookup name).getD [])

/-- A function that is called again while it runs. -/
def recursiveError (name : String) : OwaError :=
  semanticError "recursive reusable function references are not enabled"
    ["use", "functions", name, "call"]

/-- A function at the end of too long a chain. -/
def depthError (name : String) : OwaError :=
  semanticError "reusable function depth exceeds 32" ["use", "functions", name]

/-- `visit` of every function. -/
def visitFunctions (order : SetOrder) (found : List (String × List String)) :
    Transaction OwaError (Table String ℕ) Unit :=
  DepthSearch.visitAll chainLimit (successors order found) recursiveError depthError
    (found.map Prod.fst)

def functionsOf (workflow : Json) : Json :=
  ((componentsOf workflow).field? "functions").getD (.obj [])

/-- The second half of `resolve_reusable_components`: the chains of calls. -/
def checkChains (order : SetOrder) (depth : ℕ) (workflow : Json) : Except OwaError Unit := do
  let found ← dependencies (functionsOf workflow) depth
  (visitFunctions order found).answer ∅

/-- `resolve_reusable_components`. -/
def resolveReusableComponents (order : SetOrder) (depth : ℕ) (workflow : Json) :
    Except OwaError Json := do
  let resolved ← resolveComponents depth workflow
  checkChains order depth resolved
  return resolved

end Definitions
