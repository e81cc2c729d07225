/-
# Plans of workflows

`normalize_workflow` of `workflow.py`: the tasks of a workflow, scope by scope, with the reusable
functions that they call expanded in place.  `_task_scopes` lists the scopes nested in a
definition, and `scope` plans one scope: its own tasks first, and then the scopes below them.

Each planned task has two references.  `reference` says where its definition stands in the source,
so that every expansion of a function has the references of the function; `execution_reference`
says where the task stands in the plan, and is left out where the two are the same.

As in the module on definitions, `depth` is how deep the source may recurse.  The checks that
`normalize_workflow` makes on other parts of a workflow are a parameter of the model.
-/
import OpenWorkflowAgent.Definitions

open Transaction Definitions

namespace WorkflowPlan

/-! ## Scopes of a definition -/

/-- `_task_body`: a mapping with `do` stands for what is under `do`, and one task for a list. -/
def taskBody (value : Json) : List Json :=
  match (value.field? "do").getD value with
  | .arr items => items
  | .obj fields => [.obj fields]
  | _ => []

/-- A scope nested in a definition: the end of its reference, its tasks, and whether a task of it
has its position in its reference. -/
structure NestedScope where
  suffix : List String
  items : List Json
  indexed : Bool

def listAt (value : Option Json) (suffix : List String) : List NestedScope :=
  match value with
  | some (.arr items) => [⟨suffix, items, true⟩]
  | _ => []

def branchScopes (value : Option Json) : List NestedScope :=
  match value with
  | some (.arr branches) => branches.zipIdx.map fun branch =>
    ⟨["fork", "branches", toString branch.2], taskBody branch.1, false⟩
  | _ => []

def iteratorOf (definition : Json) : Option Json :=
  if (definition.field? "listen").isSome then definition.field? "foreach" else none

/-- `_task_scopes`. -/
def taskScopes (definition : Json) : List NestedScope :=
  listAt (definition.field? "do") ["do"] ++ listAt (definition.field? "try") ["try"] ++
    listAt ((definition.field? "catch").bind (Json.field? "do")) ["catch", "do"] ++
    listAt ((iteratorOf definition).bind (Json.field? "do")) ["foreach", "do"] ++
    branchScopes ((definition.field? "fork").bind (Json.field? "branches"))

/-! ## Planned tasks -/

/-- `TaskPlan`. -/
structure TaskPlan where
  name : String
  reference : Pointer
  kind : String
  definition : Json
  executionReference : Option Pointer
  deriving DecidableEq

/-- Where a task stands in the plan: `task.execution_reference or task.reference`. -/
def TaskPlan.executedAt (task : TaskPlan) : Pointer := task.executionReference.getD task.reference

/-- `ScopePlan`. -/
structure ScopePlan where
  reference : Pointer
  indexed : Bool
  tasks : List TaskPlan
  deriving DecidableEq

/-- `SUPPORTED_TASKS`. -/
def supportedTasks : List String :=
  ["do", "call", "set", "switch", "for", "fork", "try", "wait", "listen", "emit", "run", "raise"]

/-- The kind of a task; a loop is not a `do` task. -/
def taskKind (definition : Json) : String :=
  (supportedTasks.find? fun candidate => (definition.field? candidate).isSome &&
    (candidate ≠ "do" || (definition.field? "for").isNone)).getD "unknown"

/-- The arguments of a call of `scope`: the tasks, their reference in the plan, whether their
positions count, their reference in the source, the functions that are being expanded, and the one
reference in the source of all tasks of an imported function. -/
structure ScopeCall where
  items : List Json
  reference : Pointer
  indexed : Bool
  sourceStart : Option Pointer
  stack : List String
  sourceOverride : Option Pointer

/-- The reference of a task below that of its scope. -/
def ScopeCall.below (call : ScopeCall) (start : Pointer) (index : ℕ) (name : String) : Pointer :=
  if call.indexed then start ++ [toString index, name] else start ++ [name]

/-- `task_reference`. -/
def ScopeCall.taskReference (call : ScopeCall) (index : ℕ) (name : String) : Pointer :=
  call.below call.reference index name

/-- `source_reference`. -/
def ScopeCall.sourceReference (call : ScopeCall) (index : ℕ) (name : String) : Pointer :=
  call.sourceOverride.getD
    ((call.sourceStart.map fun start => call.below start index name).getD
      (call.taskReference index name))

/-- What the calls of a plan can name: the functions of the workflow and the imported ones. -/
structure Callables where
  functions : Json
  imports : List (String × Json)

/-- A planned task with the calls of `scope` for what is below it. -/
structure PlannedItem where
  task : TaskPlan
  children : List ScopeCall

/-- The error of a function that is called again while it is expanded. -/
def recursiveReference (reference : Pointer) : OwaError :=
  semanticError "recursive reusable function references are not enabled" reference

def ScopeCall.plan (call : ScopeCall) (index : ℕ) (name : String) (definition : Json) :
    TaskPlan where
  name := name
  reference := call.sourceReference index name
  kind := taskKind definition
  definition := definition
  executionReference :=
    if call.sourceReference index name ≠ call.taskReference index name
    then some (call.taskReference index name) else none

/-- The call of `scope` for a scope nested in the definition of a task. -/
def nestedCall (call : ScopeCall) (index : ℕ) (name : String) (nested : NestedScope) :
    ScopeCall :=
  ⟨nested.items, call.taskReference index name ++ nested.suffix, nested.indexed,
    some (call.sourceReference index name ++ nested.suffix), call.stack, none⟩

/-- The scope of a call: the body of a function of the workflow, or of an imported one. -/
def calledScope (callables : Callables) (call : ScopeCall) (index : ℕ) (name : String)
    (definition : Json) : Except OwaError (List ScopeCall) :=
  match definition.field? "call" with
  | some (.str callee) =>
    match callables.functions.field? callee, callables.imports.lookup callee with
    | some body, _ => do
        raiseIf (callee ∈ call.stack ∨ chainLimit ≤ call.stack.length)
          (recursiveReference (call.sourceReference index name ++ ["call"]))
        return [⟨[.obj [(callee, body)]], call.taskReference index name ++ ["call"], false,
          some ["use", "functions"], call.stack ++ [callee], none⟩]
    | none, some body =>
      .ok [⟨[.obj [(callee, body)]], call.taskReference index name ++ ["call"], false,
        some call.reference, call.stack, some (call.sourceReference index name)⟩]
    | none, none => .ok []
  | _ => .ok []

def planTask (callables : Callables) (call : ScopeCall) (index : ℕ) (name : String)
    (definition : Json) : Except OwaError PlannedItem := do
  let called ← calledScope callables call index name definition
  return ⟨call.plan index name definition,
    (taskScopes definition).map (nestedCall call index name) ++ called⟩

/-- An item of the tasks of a scope: it has one name, with a mapping. -/
def planItem (callables : Callables) (call : ScopeCall) (index : ℕ) (item : Json) :
    Except OwaError PlannedItem :=
  match item with
  | .obj [(name, .obj fields)] => planTask callables call index name (.obj fields)
  | .obj [(name, _)] => .error (.plain .workflowSemanticError
      ("task " ++ name ++ " definition must be an object"))
  | _ => .error (.plain .workflowSemanticError ("task at " ++ Pointer.text call.reference ++ "/" ++
      toString index ++ " must have exactly one name"))

def maxTasks : ℕ := 10000

def taskCount (scopes : List ScopePlan) : ℕ := (scopes.map fun scope => scope.tasks.length).sum

/-- `scope`: the scopes planned so far are the state. -/
def scope (callables : Callables) : ℕ → ScopeCall → Transaction OwaError (List ScopePlan) Unit
  | 0, _ => throw recursionError
  | depth + 1, call => do
      let planned ← orRaiseError (call.items.zipIdx.mapM fun item =>
        planItem callables call item.2 item.1)
      write fun scopes => scopes ++
        [⟨call.reference, call.indexed, planned.map PlannedItem.task⟩]
      let scopes ← read id
      raiseIf (maxTasks < taskCount scopes)
        (OwaError.plain .workflowSemanticError "reusable task expansion exceeds 10000 tasks")
      (planned.flatMap PlannedItem.children).forM (scope callables depth)

/-! ## Plans -/

/-- The checks of `normalize_workflow` on other parts of a workflow: its size as JSON, the sources
of the imported functions, and the policies of its native extensions.  Their errors are their
own. -/
structure OtherChecks where
  jsonValue : Json → Except OwaError Unit
  importedSources : List (String × Json) → Except OwaError Unit
  nativePolicies : Json → Except OwaError Unit
  jsonValue_own : ∀ workflow reference, jsonValue workflow ≠ .error (recursiveReference reference)
  importedSources_own : ∀ imports reference,
    importedSources imports ≠ .error (recursiveReference reference)
  nativePolicies_own : ∀ workflow reference,
    nativePolicies workflow ≠ .error (recursiveReference reference)

/-- The first call of `scope`. -/
def rootCall (items : List Json) : ScopeCall := ⟨items, ["do"], true, none, [], none⟩

/-- The scopes of a workflow whose components are put in. -/
def planScopes (imports : List (String × Json)) (depth : ℕ) (effective : Json) :
    Except OwaError (List ScopePlan) := do
  let tasks ← orRaise (effective.field? "do") (OwaError.plain .keyError "do")
  let items ← tasks.iterate
  let planned ← (scope ⟨functionsOf effective, imports⟩ depth (rootCall items)).run []
  return planned.2

/-- The document names the workflow and its version. -/
def identified (workflow : Json) : Prop :=
  ∀ key ∈ ["namespace", "name", "version", "dsl"],
    ((workflow.field? "document").bind (Json.field? key)).isSome

instance (workflow : Json) : Decidable (identified workflow) :=
  inferInstanceAs (Decidable (∀ key ∈ ["namespace", "name", "version", "dsl"], _))

/-- `normalize_workflow`: the scopes of the plan. -/
def normalizeWorkflow (checks : OtherChecks) (order : SetOrder) (imports : List (String × Json))
    (depth : ℕ) (workflow : Json) : Except OwaError (List ScopePlan) := do
  checks.jsonValue workflow
  checks.importedSources imports
  let effective ← resolveReusableComponents order depth workflow
  raiseIf (workflow.field? "document" = none) (OwaError.plain .keyError "document")
  let scopes ← planScopes imports depth effective
  checks.nativePolicies workflow
  raiseIf (¬ identified workflow) (OwaError.plain .keyError "document")
  return scopes

def allTasks (scopes : List ScopePlan) : List TaskPlan := scopes.flatMap ScopePlan.tasks

end WorkflowPlan
