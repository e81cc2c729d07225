/-
# The common interpreter

`WorkflowExecutor` of `workflow.py`: the engine-neutral execution of normalized
workflows.  `_run_tasks` walks the tasks of a scope with its jumps, `_run_task_item`
gives each task a local state and takes back what it left, `_run_with_policy` makes
the attempts of a task, and `_run_task` does what the task is: a sequence, a `try`
with its catch and retries, a loop, a fork, a listener, a reusable function, a switch
or an action.  All recursion of the source goes through `_run_tasks`; here every
function gets it as an argument (`nested`), and `runFrom` ties the knot with a bound
on the number of rounds.

What the interpreter does not decide itself is asked of an `Environment` over an
arbitrary world: expressions and schemas, external actions, clocks and retry budgets,
cancellation, events, and what the other branches of a fork do.  The branches of a
fork are run one after the other, each from the state that the fork has.  They share
nothing but the world and the end of the workflow; the world may answer each branch
anything, so every interleaving of the branches is a run with some world.

References are JSON pointers (`_pointer_token` escapes the names of tasks).  Left out are the
lifecycle events, the receipts of policies, and the parts of the task descriptor that
only expressions see.  The trace is not in the source: it notes the attempts that a run
makes, for the statements about runs.
-/
import OpenWorkflowAgent.Programs
import OpenWorkflowAgent.Pointers
import OpenWorkflowAgent.Tables
import OpenWorkflowAgent.EffectJournal
import OpenWorkflowAgent.Forks

open Program

/-! ## Definitions of tasks -/

/-- `then`: a flow directive, or the name of the next task. -/
inductive Transition where
  /-- `continue` -/
  | proceed
  | exit
  /-- `end` -/
  | finish
  | task (name : String)
  deriving DecidableEq, Repr

/-- What every kind of task may say.  `retries` is the number of further attempts of `retry`, and
`timed` says whether the task has a timeout. -/
structure TaskSettings where
  condition : Option String := none
  inputSchema : Option Json := none
  inputFrom : Option Json := none
  outputSchema : Option Json := none
  outputAs : Option Json := none
  exportSchema : Option Json := none
  exportAs : Option Json := none
  retries : ℕ := 0
  timed : Bool := false
  next : Option Transition := none

/-- `catch`, without its tasks.  `maxRetries` is `none` for a retry policy without a count, and
`some 0` without a retry policy. -/
structure CatchSettings where
  bindsAs : String := "error"
  filters : List (String × Json) := []
  condition : Option String := none
  exceptCondition : Option String := none
  maxRetries : Option ℕ := some 0
  retryCondition : Option String := none
  retryExceptCondition : Option String := none
  timedAttempts : Bool := false
  next : Option Transition := none

/-- `for`, without its tasks. -/
structure LoopSettings where
  values : Json
  item : String := "item"
  position : String := "index"
  continues : Option String := none
  collects : Bool := false

/-- `foreach` of a listener, without its tasks. -/
structure IteratorSettings where
  item : String := "item"
  position : String := "index"
  settings : TaskSettings := {}

/-- The definition of a task.  `attempt` is a `try` without a catch, and `action` is every task
that acts outside of the interpreter.  A reusable function stands with its own definition, as the
normalized plan has it; normalization refuses recursive ones. -/
inductive TaskDefinition where
  | set (settings : TaskSettings) (value : Json)
  | action (settings : TaskSettings) (work : Json)
  | switch (settings : TaskSettings) (cases : List (Option String × Option Transition))
  | sequence (settings : TaskSettings) (body : List (String × TaskDefinition))
  | attempt (settings : TaskSettings) (body : List (String × TaskDefinition))
  | guarded (settings : TaskSettings) (body : List (String × TaskDefinition))
      (clause : CatchSettings) (handler : List (String × TaskDefinition))
  | loop (settings : TaskSettings) (config : LoopSettings) (body : List (String × TaskDefinition))
  | fork (settings : TaskSettings) (compete : Bool)
      (branches : List (List (String × TaskDefinition)))
  | listen (settings : TaskSettings) (iterator : Option IteratorSettings)
      (body : List (String × TaskDefinition))
  | call (settings : TaskSettings) (arguments : Option Json) (function : String)
      (body : TaskDefinition)

abbrev TaskList := List (String × TaskDefinition)

def TaskDefinition.settings : TaskDefinition → TaskSettings
  | .set s _ | .action s _ | .switch s _ | .sequence s _ | .attempt s _ | .guarded s _ _ _
  | .loop s _ _ | .fork s _ _ | .listen s _ _ | .call s _ _ _ => s

/-- A scope: its tasks in order, its reference, and whether the position of a task is part of the
reference of the task. -/
structure ScopePlan where
  tasks : TaskList
  reference : Pointer
  indexed : Bool

def ScopePlan.taskReference (scope : ScopePlan) (index : ℕ) (name : String) : Pointer :=
  if scope.indexed then scope.reference ++ [toString index, name] else scope.reference ++ [name]

/-- The position of a transition target. -/
def ScopePlan.find (scope : ScopePlan) (target : String) : Option ℕ :=
  scope.tasks.findIdx? fun task => task.1 = target

/-! ## The state -/

abbrev Visits := Table Pointer ℕ

/-- `task_visits.get(reference, 0)`. -/
def Visits.count (visits : Visits) (reference : Pointer) : ℕ := (visits.lookup reference).getD 0

/-- Where a task is in the run: references with their visits, attempts and events. -/
abbrev ExecutionPath := List (Pointer × ℕ)

/-- `ExecutionState`.  `bindings` are the variables; the references of the task and the context,
which the source binds there too, have fields of their own, since normalization refuses to bind
these names.  `visitScopes` is `_operation_visit_scopes` of the metadata.  `occurrence` is the path
without the attempts and with each visit counted from the start of the enclosing attempt; no code
reads it. -/
structure ExecutionState where
  data : Json
  outputs : Table String Json
  bindings : Table String Json
  context : Json
  jumpTo : Option String
  stop : Bool
  scopeExit : Bool
  transitionSelected : Bool
  taskVisits : Visits
  executionPath : ExecutionPath
  executionReference : Pointer
  taskReference : Pointer
  visitScopes : List (Pointer × Visits)
  occurrence : ExecutionPath

namespace ExecutionState

/-- The state in which the tasks of a workflow start. -/
def initial (bindings : Table String Json) (data : Json) : ExecutionState where
  data := data
  outputs := ∅
  bindings := bindings
  context := data
  jumpTo := none
  stop := false
  scopeExit := false
  transitionSelected := false
  taskVisits := ∅
  executionPath := []
  executionReference := ["do"]
  taskReference := ["do"]
  visitScopes := []
  occurrence := []

/-- `_copy_state`: the flow-control flags start afresh. -/
def copyState (s : ExecutionState) : ExecutionState :=
  { s with
    jumpTo := none
    stop := false
    scopeExit := false
    transitionSelected := false }

/-- The variables that expressions see. -/
def variableScope (s : ExecutionState) : Table String Json := s.bindings.put "context" s.context

def bind (name : String) (value : Json) (s : ExecutionState) : ExecutionState :=
  { s with bindings := s.bindings.put name value }

/-- Drop variables. -/
def unbind (names : List String) (s : ExecutionState) : ExecutionState :=
  { s with bindings := s.bindings.keepWhere fun name _ => name ∉ names }

def bindAll (values : List (String × Json)) (s : ExecutionState) : ExecutionState :=
  { s with bindings := values.foldl (fun t value => t.put value.1 value.2) s.bindings }

/-- Take over `event` and `resume_input` of a child state. -/
def takeBindings (child s : ExecutionState) : ExecutionState :=
  s.bindAll (["event", "resume_input"].filterMap fun name =>
    (child.bindings.lookup name).map fun value => (name, value))

/-- `task["output"] = result`, when there is a task descriptor. -/
def noteOutput (result : Json) (s : ExecutionState) : ExecutionState :=
  match s.bindings.lookup "task" with
  | some (.obj fields) =>
    s.bind "task" (.obj ((fields.filter fun field => field.1 ≠ "output") ++ [("output", result)]))
  | _ => s

end ExecutionState

/-- The end of a workflow: its output and context. -/
structure FlowEnd where
  output : Json
  context : Json
  deriving DecidableEq

/-- Why a program stops: an ordinary fault, which retries and catches may handle; a cancelled
invocation, a lost lease or an action with an unknown outcome, which they must not; a suspension
or the cancellation of the running code, which no `except Exception` sees; or the bound on the
rounds of the model. -/
inductive Stop where
  | fault (error : RaisedError)
  | cancelled (error : RaisedError)
  | conflict (error : RaisedError)
  | recovery (error : RaisedError)
  | suspended
  | interrupted
  | exhausted
  deriving DecidableEq

/-- One attempt of a task: where it is, and the operation id that it has. -/
structure Execution where
  path : ExecutionPath
  occurrence : ExecutionPath
  reference : Pointer
  operationId : String
  deriving DecidableEq

/-- The start or the failure of one attempt of the block of a `try` task with a catch: the data and
the context at that moment, and those that the task received. -/
structure BlockState where
  path : ExecutionPath
  data : Json
  context : Json
  received : Json
  receivedContext : Json
  deriving DecidableEq

/-- What a run has done so far. -/
inductive Entry where
  | executes (execution : Execution)
  | startsBlock (state : BlockState)
  | failsBlock (state : BlockState)
  deriving DecidableEq

/-- The live state of a run. -/
structure Machine (W : Type) where
  frame : ExecutionState
  flow : Option FlowEnd
  world : W
  trace : List Entry

/-- The live state at the start of a workflow. -/
def Machine.initial {W : Type} (bindings : Table String Json) (data : Json) (world : W) :
    Machine W where
  frame := .initial bindings data
  flow := none
  world := world
  trace := []

/-- A piece of the interpreter. -/
abbrev Exec (W α : Type) := EStateM Stop (Machine W) α

/-- What the interpreter is run with. -/
structure Environment (W : Type) where
  invocationId : String
  fingerprint : String
  /-- The hash of `effect_request_digest`. -/
  hash : String → Json → String
  /-- `_source_references`: the reference in the source of an execution reference. -/
  source : Pointer → Pointer
  /-- Whether listeners select their events durably. -/
  durable : Bool
  /-- The expression engine: an expression, the data and the variables. -/
  evaluate : Json → Json → Table String Json → Except Stop Json
  condition : String → Json → Table String Json → Except Stop Bool
  /-- The first error of a schema on a value: its path and the validator. -/
  schemaProblem : Json → Json → Option (String × String)
  /-- The cancellation token. -/
  checkpoint : W → Except Stop Unit × W
  /-- Whether a deadline that is in force has passed. -/
  deadline : W → Except Stop Unit × W
  /-- Whether another branch has ended the workflow. -/
  endedElsewhere : W → Option FlowEnd × W
  /-- An external action: its result, and the variables that it binds. -/
  perform : Json → ExecutionState → W → Except Stop (Json × List (String × Json)) × W
  /-- Whether a retry is already scheduled. -/
  scheduled : ExecutionState → W → Bool × W
  /-- The clock and the budget of a retry. -/
  retryReady : ExecutionState → ℕ → W → Except Stop Bool × W
  /-- The admission of a further attempt. -/
  admitAttempt : ExecutionState → ℕ → W → Except Stop Unit × W
  /-- The next event of a listener and its projection, or the completion of the listener. -/
  nextEvent : ExecutionState → ℕ → W → Except Stop (Option (Json × Json)) × W
  /-- Which of the branches comes first. -/
  pick : W → ℕ × W
  /-- The recorded decision of a competitive fork, if there is one. -/
  decided : ExecutionState → W → Except Stop (Option DecisionFields) × W
  /-- The decision that is recorded when branches propose theirs; none if the workflow was ended
  outside of the fork. -/
  decide : ExecutionState → List DecisionFields → W → Except Stop (Option DecisionFields) × W

namespace Interpreter

variable {W α : Type}

/-! ## Primitives -/

/-- Read off the current state. -/
def frame : Exec W ExecutionState := fun m => .ok m.frame m

/-- The end of the workflow, as this branch knows it. -/
def flow : Exec W (Option FlowEnd) := fun m => .ok m.flow m

def update (f : ExecutionState → ExecutionState) : Exec W Unit :=
  modify fun m => { m with frame := f m.frame }

/-- Change what is known of the end of the workflow. -/
def setFlow (flow : Option FlowEnd) : Exec W Unit := modify fun m => { m with flow := flow }

/-- Note what the run does. -/
def record (entry : Entry) : Exec W Unit := modify fun m => { m with trace := m.trace ++ [entry] }

def ask (query : W → Except Stop α × W) : Exec W α := fun m =>
  match query m.world with
  | (.ok a, w) => .ok a { m with world := w }
  | (.error e, w) => .error e { m with world := w }

/-- Ask the world what it always answers. -/
def observe (query : W → α × W) : Exec W α := fun m =>
  .ok (query m.world).1 { m with world := (query m.world).2 }

/-- Run with a state of its own: the outcome, and the state that is left.  The caller's state
stays. -/
def runIn (child : ExecutionState) (body : Exec W α) : Exec W (Except Stop α × ExecutionState) :=
  fun m =>
    match body { m with frame := child } with
    | .ok a m' => .ok (.ok a, m'.frame) { m' with frame := m.frame }
    | .error e m' => .ok (.error e, m'.frame) { m' with frame := m.frame }

/-- Run with a state of its own and raise what is raised there. -/
def inFrame (child : ExecutionState) (body : Exec W α) : Exec W (α × ExecutionState) := do
  let left ← runIn child body
  ofOutcome (left.1.map fun a => (a, left.2))

def currentData : Exec W Json := do
  let s ← frame
  return s.data

/-- Raise a stop unless a condition holds. -/
def demand (b : Bool) (stop : Stop) : Exec W Unit := if b then pure () else throw stop

variable (env : Environment W)

def evaluate (expression data : Json) : Exec W Json := do
  let s ← frame
  ofOutcome (env.evaluate expression data s.variableScope)

/-- Evaluate an optional transformation. -/
def transform (expression : Option Json) (value : Json) : Exec W Json :=
  match expression with
  | some expression => evaluate env expression value
  | none => pure value

/-- Evaluate an optional condition on the current data; `fallback` is its value when it is
absent. -/
def optionalCondition (expression : Option String) (fallback : Bool) : Exec W Bool :=
  match expression with
  | some expression => do
      let s ← frame
      ofOutcome (env.condition expression s.data s.variableScope)
  | none => pure fallback

/-- `when` and `exceptWhen`. -/
def bothConditions (holds excepted : Option String) : Exec W Bool := do
  let matched ← optionalCondition env holds true
  if matched then do
    let refused ← optionalCondition env excepted false
    return !refused
  else return false

/-- `flow.ended`: the workflow was ended here or by another branch. -/
def flowEnded : Exec W (Option FlowEnd) := do
  let elsewhere ← observe env.endedElsewhere
  let own ← flow
  return own.or elsewhere

/-! ## Operation ids -/

/-- The two kinds of attempts in a path. -/
def attemptMarkers : List String := ["@attempt", "@catch-attempt"]

/-- `reference.endswith(("/@attempt", "/@catch-attempt"))`. -/
def endsWithMarker (reference : Pointer) : Bool :=
  attemptMarkers.any fun marker => ('/' :: marker.toList).isSuffixOf (Pointer.chars reference)

/-- `reference.startswith(parent + "/")`. -/
def startsBelow (parent reference : Pointer) : Bool :=
  (Pointer.chars parent ++ ['/']).isPrefixOf (Pointer.chars reference)

/-- The visits that the innermost attempt around a reference started with. -/
def baseline (scopes : List (Pointer × Visits)) (reference : Pointer) : ℕ :=
  match scopes.reverse.find? fun scope => startsBelow scope.1 reference with
  | some scope => scope.2.count reference
  | none => 0

/-- A path without its attempts and with relative visits; the subtraction may go below one. -/
def relativePath (scopes : List (Pointer × Visits)) (path : ExecutionPath) : List (Pointer × ℤ) :=
  (path.filter fun step => !endsWithMarker step.1).map fun step =>
    (step.1, (step.2 : ℤ) - (baseline scopes step.1 : ℤ))

/-- `_logical_operation_path`. -/
def logicalOperationPath (s : ExecutionState) : Except Stop ExecutionPath :=
  let logical := relativePath s.visitScopes s.executionPath
  if logical.any fun step => step.2 < 1 then
    .error (.recovery ⟨⟨"workflow_execution_error", "logical action occurrence is inconsistent",
      []⟩, 500, none⟩)
  else .ok (logical.map fun step => (step.1, step.2.toNat))

/-- The value whose digest names a repeated operation. -/
def operationValue (occurrence : ExecutionPath) : Json :=
  .obj [("invocation_id", .str env.invocationId), ("fingerprint", .str env.fingerprint),
    ("occurrence", .arr (occurrence.map fun step =>
      .arr [.str (Pointer.text step.1), .int step.2]))]

/-- The error of `validate_expression_data`, as a program raises it. -/
def invalidData : Stop :=
  .fault ⟨⟨"expression_error", invalidExpressionData.message, invalidExpressionData.details⟩, 400,
    none⟩

def operationKey (reference : Pointer) (occurrence : ExecutionPath) : Except Stop String :=
  if occurrence.any fun step => 1 < step.2 then
    match effectRequestDigest env.hash "owa/logical-operation/v1"
        (operationValue env occurrence) with
    | .ok digest =>
      .ok (env.invocationId ++ ":visit-v1:" ++ digest ++ ":" ++ Pointer.text reference)
    | .error _ => .error invalidData
  else .ok (env.invocationId ++ ":" ++ Pointer.text reference)

/-- `_operation_id`. -/
def operationId (s : ExecutionState) : Except Stop String := do
  let logical ← logicalOperationPath s
  operationKey env s.executionReference logical

/-- `_operation_visit_scope`: the visits of the children are counted from here. -/
def operationVisitScope (body : Exec W α) : Exec W α := do
  let s ← frame
  update fun s => { s with
    visitScopes := s.visitScopes ++ [(s.executionReference, s.taskVisits)] }
  ensuring body fun m => { m with frame := { m.frame with visitScopes := s.visitScopes } }

/-! ## Data, transitions and deadlines -/

/-- `_validate_data_schema`. -/
def validateDataSchema (schema : Option Json) (value : Json) (label : String) : Exec W Unit :=
  match schema.bind fun document => env.schemaProblem document value with
  | some (path, validator) =>
    throw (.fault ⟨⟨"workflow_semantic_error",
      label ++ " schema validation failed at " ++ path,
      [("path", .str path), ("validator", .str validator),
        ("type", .str "https://serverlessworkflow.io/spec/1.0.0/errors/validation"),
        ("status", .int 400)]⟩, 400, none⟩)
  | none => pure ()

/-- `_apply_task_data`. -/
def applyTaskData (settings : TaskSettings) (result : Json) : Exec W Json := do
  demand result.valid invalidData
  update (ExecutionState.noteOutput result)
  let output ← transform env settings.outputAs result
  validateDataSchema env settings.outputSchema output "task output"
  update (ExecutionState.bind "output" output)
  let s ← frame
  -- without `export.as` the context stays
  let exported ← transform env settings.exportAs (if settings.exportAs.isSome then output
    else s.context)
  validateDataSchema env settings.exportSchema exported "task export"
  update fun s => { s with context := exported }
  return output

/-- `_apply_transition`; the first one to end the workflow fixes its output. -/
def applyTransition (transition : Option Transition) : Exec W Unit :=
  match transition with
  | none => pure ()
  | some .proceed => update fun s => { s with transitionSelected := true }
  | some .exit => update fun s => { s with
      transitionSelected := true
      scopeExit := true }
  | some .finish => modify fun m => { m with
      frame := { m.frame with
        transitionSelected := true
        stop := true }
      flow := m.flow.or (some ⟨m.frame.data, m.frame.context⟩) }
  | some (.task name) => update fun s => { s with
      transitionSelected := true
      jumpTo := some name }

/-- What `_run_timed` does with the outcome of its operation: a deadline that has passed replaces a
result, and the cancellation that it caused. -/
def settleTimed : Except Stop α → Exec W α
  | .ok a => do
      ask env.deadline
      return a
  | .error .interrupted => do
      ask env.deadline
      throw .interrupted
  | .error stop => throw stop

/-- `_run_timed`. -/
def runTimed (timed : Bool) (operation : Exec W α) : Exec W α :=
  if timed then do
    ask env.deadline
    let result ← outcome operation
    settleTimed env result
  else operation

/-- `_await_with_cancellation`. -/
def awaitWithCancellation (operation : Exec W α) : Exec W α := do
  ask env.checkpoint
  let result ← outcome operation
  ask env.checkpoint
  ofOutcome result

/-! ## Composite tasks

`nested` runs the tasks of a scope in the current state. -/

variable (nested : ScopePlan → Exec W Unit)

/-- `_nested_prefix`. -/
def nestedReference (s : ExecutionState) (suffix : List String) : Pointer :=
  s.executionReference ++ suffix

/-- `_run_tasks` of a body in the current state. -/
def runBody (body : TaskList) (suffix : List String) : Exec W Unit := do
  let s ← frame
  nested ⟨body, nestedReference s suffix, true⟩

/-- `_run_switch`: the first case that matches, or the last one without a condition. -/
def runSwitch : List (Option String × Option Transition) → Option Transition → Exec W Unit
  | [], fallback => applyTransition fallback
  | (none, next) :: rest, _ => runSwitch rest next
  | (some expression, next) :: rest, fallback => do
      let matched ← optionalCondition env (some expression) true
      if matched then applyTransition next else runSwitch rest fallback

def iterationState (config : LoopSettings) (index : ℕ) (value : Json) (s : ExecutionState) :
    ExecutionState :=
  s.copyState.bindAll [(config.item, value), (config.position, .int index)]

/-- `while`, on the input of the loop. -/
def loopContinues (config : LoopSettings) (input : Json) (child : ExecutionState) :
    Exec W Bool :=
  match config.continues with
  | some expression => ofOutcome (env.condition expression input child.variableScope)
  | none => pure true

/-- One iteration of a loop that goes on: the data it left, and whether the workflow stops. -/
def runIteration (body : TaskList) (child : ExecutionState) : Exec W (Json × Bool) := do
  let left ← inFrame child (nested ⟨body, nestedReference child ["do"], true⟩)
  update fun s => { s with
    data := left.2.data
    taskVisits := left.2.taskVisits
    context := left.2.context }
  return (left.2.data, left.2.stop)

def runIterations (config : LoopSettings) (body : TaskList) (input : Json) :
    ℕ → List Json → List Json → Exec W (List Json)
  | _, [], results => pure results
  | index, value :: values, results => do
      let s ← frame
      let continues ← loopContinues env config input (iterationState config index value s)
      if continues then do
        let answer ← runIteration nested body (iterationState config index value s)
        if answer.2 then do
          update fun s => { s with stop := true }
          return results ++ [answer.1]
        else runIterations config body input (index + 1) values (results ++ [answer.1])
      else return results

/-- `for.in` has to be an array. -/
def loopValues : Json → Exec W (List Json)
  | .arr values => pure values
  | _ => throw (.fault ⟨⟨"workflow_semantic_error", "for.in must evaluate to an array", []⟩, 400,
      none⟩)

/-- `_run_for`. -/
def runFor (config : LoopSettings) (body : TaskList) : Exec W Json := do
  let s ← frame
  let value ← evaluate env config.values s.data
  let values ← loopValues value
  let results ← runIterations env nested config body s.data 0 values []
  let s ← frame
  return if config.collects then .arr results else results.getLast?.getD s.data

/-- A branch of a fork that is done: its outcome, the state that it left, and whether it ended the
workflow. -/
structure BranchRun where
  result : Except Stop Unit
  left : ExecutionState
  ended : Bool

/-- `run_branch`: a branch has a copy of the state, and what it does to the end of the workflow is
kept apart until the fork joins. -/
def runBranch (index : ℕ) (branch : TaskList) : Exec W BranchRun := do
  let s ← frame
  let before ← flow
  let left ← runIn s.copyState
    (nested ⟨branch, nestedReference s ["fork", "branches", toString index], false⟩)
  let after ← flow
  setFlow before
  return ⟨left.1, left.2, before.isNone && after.isSome⟩

def runBranches : ℕ → List TaskList → Exec W (List BranchRun)
  | _, [] => pure []
  | index, branch :: rest => do
      let run ← runBranch nested index branch
      let runs ← runBranches (index + 1) rest
      return run :: runs

def firstOf {β : Type} (position : ℕ) (branches : List β) : Option β :=
  branches[position % branches.length]?

/-- The workflow is over: the fork ends with it. -/
def joinEnded (fin : FlowEnd) : Exec W Json := do
  update fun s => { s with
    stop := true
    context := fin.context }
  return fin.output

/-- The fork joins a branch that ended the workflow. -/
def joinOwner (run : BranchRun) : Exec W Json :=
  match run.result with
  | .ok () => do
      setFlow (some ⟨run.left.data, run.left.context⟩)
      joinEnded ⟨run.left.data, run.left.context⟩
  | .error stop => throw stop

/-- What a branch raised; a suspended branch waits for its siblings. -/
def BranchRun.failure (run : BranchRun) : Option Stop :=
  match run.result with
  | .error .suspended => none
  | .error stop => some stop
  | .ok () => none

def joinResults (runs : List BranchRun) : Exec W Json :=
  if runs.any fun run => run.result = .error .suspended then throw .suspended
  else return .arr (runs.map fun run => run.left.data)

/-- `_join_fork`: the end of the workflow comes first, then what a branch raised. -/
def joinFork (runs : List BranchRun) : Exec W Json := do
  let first ← observe env.pick
  let ended ← flowEnded env
  match ended, firstOf first (runs.filter BranchRun.ended),
      firstOf first (runs.filterMap BranchRun.failure) with
  | some fin, _, _ => joinEnded fin
  | none, some run, _ => joinOwner run
  | none, none, some stop => throw stop
  | none, none, none => joinResults runs

/-- The end of a branch, as the decision of a competitive fork sees it; a cancelled branch has
none. -/
def BranchRun.branchEnd (operation : String) (run : BranchRun) : Option BranchEnd :=
  match run.result with
  | .ok () => some (.finished run.left.data run.left.context operation)
  | .error (.fault error) | .error (.cancelled error) =>
    some (.faulted run.left.context (some error))
  | .error .suspended => some .suspended
  | .error (.conflict error) =>
    some (.uncertain ⟨.invocationStateConflict, error.fields.message, error.fields.details⟩)
  | .error (.recovery error) =>
    some (.uncertain ⟨.effectRecoveryRequired, error.fields.message, error.fields.details⟩)
  | .error .interrupted | .error .exhausted => none

def proposals (operation : String) (runs : List BranchRun) : List DecisionFields :=
  runs.zipIdx.filterMap fun run =>
    (run.1.branchEnd operation).bind (proposedFields runs.length run.2 run.1.ended)

/-- `_fork_decision_result` in the current state. -/
def applyDecision (decision : DecisionFields) : Exec W Json :=
  match forkDecisionResult decision with
  | .returns output => pure output
  | .ends output context => do
      setFlow (some ⟨output, context⟩)
      joinEnded ⟨output, context⟩
  | .raises error =>
    throw (if error.fields.code = "invocation_cancelled" then .cancelled error else .fault error)

/-- The answer of a competitive fork; without a decision it passes its data on. -/
def answerDecision : Option DecisionFields → Exec W Json
  | some decision => applyDecision decision
  | none => currentData

def raceFork (branches : List TaskList) : Exec W Json := do
  let s ← frame
  let operation ← ofOutcome (operationId env s)
  let runs ← runBranches nested 0 branches
  let decision ← ask (env.decide s (proposals operation runs))
  answerDecision decision

/-- `_run_competing_fork`: a recorded decision is replayed. -/
def runCompetingFork (branches : List TaskList) : Exec W Json := do
  let s ← frame
  let recorded ← ask (env.decided s)
  match recorded with
  | some decision => applyDecision decision
  | none => raceFork env nested branches

/-- `_run_fork`. -/
def runFork (compete : Bool) (branches : List TaskList) : Exec W Json :=
  if compete then
    if branches.isEmpty then currentData else runCompetingFork env nested branches
  else do
    let runs ← runBranches nested 0 branches
    joinFork env runs

/-- The call of a reusable function: one task in a state of its own. -/
def runFunction (function : String) (body : TaskDefinition) (payload : Json) : Exec W Json := do
  let s ← frame
  let left ← inFrame { s.copyState with data := payload }
    (nested ⟨[(function, body)], nestedReference s ["call"], false⟩)
  update fun s => left.2.takeBindings { s with
    context := left.2.context
    stop := left.2.stop }
  return left.2.data

/-- The state of the tasks that handle one event.  A durable selection is a step of the path; a
listener that is not durable admits one event only. -/
def itemState (iterator : IteratorSettings) (ordinal : ℕ) (value : Json) (s : ExecutionState) :
    ExecutionState :=
  let marker := if env.durable then [(s.executionReference ++ ["@event"], ordinal)] else []
  { s.copyState.bindAll [("input", value), (iterator.item, value),
      (iterator.position, .int (ordinal - 1 : ℕ))] with
    data := value
    executionPath := s.executionPath ++ marker
    occurrence := s.occurrence ++ marker }

/-- The tasks that handle one event, in their own state. -/
def handleItem (iterator : IteratorSettings) (body : TaskList) : Exec W Json := do
  when (!body.isEmpty) (runBody nested body ["foreach", "do"])
  let data ← currentData
  applyTaskData env iterator.settings data

/-- `_listener_item`. -/
def listenerItem (iterator : Option IteratorSettings) (body : TaskList) (ordinal : ℕ)
    (value : Json) : Exec W Json :=
  match iterator with
  | none => pure value
  | some iterator => do
      let s ← frame
      let left ← inFrame (itemState env iterator ordinal value s)
        (handleItem env nested iterator body)
      update fun s => { s with
        context := left.2.context
        taskVisits := left.2.taskVisits
        stop := left.2.stop }
      return left.1

/-- `_listener_received` and `_listener_item`: the result, and whether the listener is done. -/
def receiveEvent (iterator : Option IteratorSettings) (body : TaskList) (ordinal : ℕ)
    (event : Json × Json) : Exec W (Json × Bool) := do
  update (ExecutionState.bind "event" event.1)
  let result ← listenerItem env nested iterator body ordinal event.2
  let s ← frame
  let ended ← flowEnded env
  return (result, s.stop || ended.isSome || !env.durable)

/-- `_run_listen`: the events of a listener, until it completes or the workflow stops. -/
def runEvents (iterator : Option IteratorSettings) (body : TaskList) :
    ℕ → ℕ → List Json → Exec W (List Json)
  | 0, _, _ => throw .exhausted
  | rounds + 1, ordinal, results => do
      let s ← frame
      let event ← ask (env.nextEvent s ordinal)
      match event with
      | none => return results
      | some event => do
          let answer ← receiveEvent env nested iterator body ordinal event
          if answer.2 then return results ++ [answer.1]
          else runEvents iterator body rounds (ordinal + 1) (results ++ [answer.1])

/-! ## `try` with a catch -/

/-- `value.setdefault(key, …)`. -/
def setDefault (key : String) (value : Json) (fields : List (String × Json)) :
    List (String × Json) :=
  if fields.any fun field => field.1 = key then fields else fields ++ [(key, value)]

/-- The category of an error in the standard's error types. -/
def errorCategory (code : String) (status : Option Json) : String :=
  if status = some (.int 401) then "authentication"
  else if status = some (.int 403) then "authorization"
  else if code ∈ ["configuration_error", "unsupported_workflow_feature"] then "configuration"
  else if code ∈ ["workflow_schema_error", "workflow_semantic_error"] then "validation"
  else if code = "expression_error" then "expression"
  else if code ∈ ["model_error", "tool_error"] then "communication"
  else if code = "approval_authorization_error" then "authorization"
  else "runtime"

/-- `_catch_error_value`. -/
def catchErrorValue (error : RaisedError) : List (String × Json) :=
  let own := [("code", .str error.fields.code), ("message", Json.str error.fields.message)]
  let value := (own.filter fun field => error.fields.details.all fun d => d.1 ≠ field.1) ++
    error.fields.details
  let value := setDefault "status" (.int error.statusCode) value
  let category := errorCategory error.fields.code (value.lookup "status")
  setDefault "detail" (.str error.fields.message)
    (setDefault "title" (.str error.fields.code)
      (setDefault "type"
        (.str ("https://serverlessworkflow.io/spec/1.0.0/errors/" ++ category)) value))

/-- The value that a filter of `errors.with` is compared with. -/
def filterValue (value : List (String × Json)) (key : String) : Json :=
  let inner := match value.lookup "details" with
    | some (.obj fields) => fields.lookup key
    | _ => none
  if key ∈ ["type", "status", "instance", "title", "detail"] then
    (inner.or (value.lookup key)).getD .null
  else .null

/-- `_catch_matches`. -/
def catchMatches (clause : CatchSettings) (error : RaisedError) : Exec W Bool :=
  if clause.filters.all fun filter => filterValue (catchErrorValue error) filter.1 = filter.2 then
    bothConditions env clause.condition clause.exceptCondition
  else pure false

/-- `_retry_allowed`; a retry that is already scheduled is not asked again. -/
def retryAllowed (clause : CatchSettings) (scheduled : Bool) : Exec W Bool :=
  if scheduled then pure true
  else bothConditions env clause.retryCondition clause.retryExceptCondition

/-- Whether a failed attempt is followed by another one. -/
def retries (clause : CatchSettings) (attempt : ℕ) : Exec W Bool := do
  let s ← frame
  let scheduled ← observe (env.scheduled s)
  if clause.maxRetries.all fun most => attempt < most then do
    let allowed ← retryAllowed env clause scheduled
    if allowed then ask (env.retryReady s attempt) else pure false
  else pure false

def blockState (received s : ExecutionState) : BlockState :=
  ⟨s.executionPath, s.data, s.context, received.data, received.context⟩

/-- `_run_retry_attempt`; `received` is the state in which the task started. -/
def runRetryAttempt (body : TaskList) (clause : CatchSettings) (received : ExecutionState)
    (attempt : ℕ) : Exec W Unit := do
  let s ← frame
  when (attempt ≠ 0) (ask (env.admitAttempt s attempt))
  record (.startsBlock (blockState received s))
  operationVisitScope (runTimed env (attempt ≠ 0 && clause.timedAttempts)
    (runBody nested body ["try"]))

/-- A fault of an attempt: whether the block is attempted again.  A fault that the clause does not
match is raised on. -/
def catchFault (clause : CatchSettings) (received : ExecutionState) (attempt : ℕ)
    (error : RaisedError) : Exec W Bool := do
  let s ← frame
  record (.failsBlock (blockState received s))
  update (ExecutionState.bind clause.bindsAs (.obj (catchErrorValue error)))
  let matched ← catchMatches env clause error
  demand matched (.fault error)
  retries env clause attempt

/-- The catch path of a fault that is not retried. -/
def runHandler (clause : CatchSettings) (handler : TaskList) : Exec W Json := do
  runBody nested handler ["catch", "do"]
  applyTransition clause.next
  currentData

def markBlock (received : ExecutionState) (attempt : ℕ) : Exec W Unit :=
  update fun s => { s with
    executionPath := received.executionPath ++
      [(s.taskReference ++ ["@catch-attempt"], attempt + 1)] }

/-- The attempts of the block of a `try` task with a catch. -/
def runAttempts (body : TaskList) (clause : CatchSettings) (handler : TaskList)
    (received : ExecutionState) : ℕ → ℕ → Exec W Json
  | 0, _ => throw .exhausted
  | rounds + 1, attempt => do
      markBlock received attempt
      let result ← outcome (runRetryAttempt env nested body clause received attempt)
      match result with
      | .ok () => currentData
      | .error (.fault error) => do
          let again ← catchFault env clause received attempt error
          if again then runAttempts body clause handler received rounds (attempt + 1)
          else runHandler nested clause handler
      | .error stop => throw stop

/-! ## Tasks -/

/-- The result of a task; a task that is skipped passes its input on. -/
structure TaskResult where
  data : Json
  skipped : Bool

/-- The input of a task: validated and transformed. -/
def enterTask (name : String) (settings : TaskSettings) : Exec W Json := do
  let s ← frame
  validateDataSchema env settings.inputSchema s.data ("task " ++ name ++ " input")
  let input ← transform env settings.inputFrom s.data
  update fun s => { s with data := input }.bind "input" input
  return input

def runAction (work : Json) : Exec W Json := do
  let s ← frame
  let result ← ask (env.perform work s)
  update (ExecutionState.bindAll result.2)
  return result.1

/-- What a task is; `rounds` bounds the attempts and events of one task. -/
def runKind (rounds : ℕ) (input : Json) : TaskDefinition → Exec W Json
  | .set _ value => evaluate env value input
  | .action _ work => runAction env work
  | .switch _ cases => do
      runSwitch env cases none
      currentData
  | .sequence _ body => do
      runBody nested body ["do"]
      currentData
  | .attempt _ body => do
      runBody nested body ["try"]
      currentData
  | .guarded _ body clause handler => do
      let s ← frame
      runAttempts env nested body clause handler s rounds 0
  | .loop _ config body => runFor env nested config body
  | .fork _ compete branches => runFork env nested compete branches
  | .listen _ iterator body => do
      let results ← runEvents env nested iterator body rounds 1 []
      return .arr results
  | .call _ arguments function body => do
      let payload ← transform env arguments input
      runFunction nested function body payload

def runEntered (rounds : ℕ) (name : String) (task : TaskDefinition) : Exec W TaskResult := do
  let input ← enterTask env name task.settings
  let data ← runKind env nested rounds input task
  return ⟨data, false⟩

/-- `_run_task`. -/
def runTask (rounds : ℕ) (name : String) (task : TaskDefinition) : Exec W TaskResult := do
  let runs ← optionalCondition env task.settings.condition true
  if runs then runEntered env nested rounds name task
  else do
    let data ← currentData
    return ⟨data, true⟩

def runAttempt (rounds : ℕ) (name : String) (task : TaskDefinition) : Exec W TaskResult := do
  ask env.checkpoint
  let s ← frame
  let operation ← ofOutcome (operationId env s)
  record (.executes ⟨s.executionPath, s.occurrence, s.executionReference, operation⟩)
  operationVisitScope (runTimed env task.settings.timed
    (awaitWithCancellation env (runTask env nested rounds name task)))

def markAttempt (path : ExecutionPath) (input : Json) (attempt : ℕ) : Exec W Unit :=
  update fun s => { s with
    executionPath := path ++ [(s.taskReference ++ ["@attempt"], attempt + 1)]
    data := input }.unbind ["input", "output"]

/-- The attempts of a task: the first argument counts those after this one. -/
def policyAttempts (rounds : ℕ) (name : String) (task : TaskDefinition) (path : ExecutionPath)
    (input : Json) : ℕ → ℕ → Exec W TaskResult
  | 0, attempt => do
      markAttempt path input attempt
      runAttempt env nested rounds name task
  | remaining + 1, attempt => do
      markAttempt path input attempt
      let result ← outcome (runAttempt env nested rounds name task)
      match result with
      | .ok answer => return answer
      | .error (.fault _) => policyAttempts rounds name task path input remaining (attempt + 1)
      | .error stop => throw stop

/-- `_run_with_policy`. -/
def runWithPolicy (rounds : ℕ) (name : String) (task : TaskDefinition) : Exec W TaskResult := do
  when task.settings.timed (ask env.deadline)
  let s ← frame
  policyAttempts env nested rounds name task s.executionPath s.data task.settings.retries 0

def taskOutput (settings : TaskSettings) (result : TaskResult) : Exec W Json :=
  if result.skipped then pure result.data else applyTaskData env settings result.data

/-- What a task does in its local state. -/
def runLocal (rounds : ℕ) (name : String) (task : TaskDefinition) : Exec W Json := do
  let result ← runWithPolicy env nested rounds name task
  taskOutput env task.settings result

def taskDescriptor (name : String) (reference : Pointer) (input : Json) : Json :=
  .obj [("name", .str name), ("reference", .str (Pointer.text reference)), ("input", input)]

/-- The visits of a task since the start of the enclosing attempt. -/
def visitInAttempt (s : ExecutionState) (execution : Pointer) (visit : ℕ) : ℕ :=
  visit - s.visitScopes.getLast?.elim 0 fun scope => scope.2.count execution

/-- The local state of a task that is visited for the `visit`-th time. -/
def localState (name : String) (execution : Pointer) (visit : ℕ) (s : ExecutionState) :
    ExecutionState :=
  { (s.copyState.unbind ["input", "output"]).bind "task"
      (taskDescriptor name (env.source execution) s.data) with
    executionPath := s.executionPath ++ [(execution, visit)]
    occurrence := s.occurrence ++ [(execution, visitInAttempt s execution visit)]
    executionReference := execution
    taskReference := env.source execution }

/-- An error gets the operation id and the reference of the task it comes from, unless it has
them. -/
def locateError (s : ExecutionState) (operation : String) (error : RaisedError) : RaisedError :=
  { error with
    operationId := error.operationId.or (some operation)
    fields := { error.fields with
      details := setDefault "instance" (.str (Pointer.text s.taskReference))
        error.fields.details } }

/-- What a failed task raises. -/
def locateStop (s : ExecutionState) (operation : String) : Stop → Stop
  | .fault error => .fault (locateError s operation error)
  | .conflict error => .conflict (locateError s operation error)
  | .recovery error => .recovery (locateError s operation error)
  | .cancelled error => .cancelled error
  | .suspended => .suspended
  | .interrupted => .interrupted
  | .exhausted => .exhausted

/-- What a task that is done leaves in the state of its scope. -/
def takeBack (name : String) (output : Json) (left s : ExecutionState) : ExecutionState :=
  left.takeBindings { s with
    outputs := left.outputs.put name output
    taskVisits := left.taskVisits
    data := output
    context := left.context
    jumpTo := left.jumpTo
    stop := left.stop
    scopeExit := left.scopeExit
    transitionSelected := left.transitionSelected }

/-- The task's own `then` counts when its work selected no transition. -/
def ownTransition (task : TaskDefinition) : Exec W Unit := do
  let s ← frame
  if !s.transitionSelected && !s.stop then applyTransition task.settings.next else pure ()

/-- A task that is done, and one that failed. -/
def finishItem (name : String) (task : TaskDefinition) (child : ExecutionState)
    (operation : String) (left : Except Stop Json × ExecutionState) : Exec W Unit :=
  match left.1 with
  | .ok output => do
      update (takeBack name output left.2)
      ownTransition task
  | .error stop => throw (locateStop child operation stop)

def countVisit (execution : Pointer) : Exec W ℕ := do
  let s ← frame
  update fun s => { s with
    taskVisits := s.taskVisits.put execution (s.taskVisits.count execution + 1) }
  return s.taskVisits.count execution + 1

/-- `_run_task_item`. -/
def runTaskItem (rounds : ℕ) (name : String) (task : TaskDefinition) (execution : Pointer) :
    Exec W Unit := do
  let visit ← countVisit execution
  let s ← frame
  let operation ← ofOutcome (operationId env (localState env name execution visit s))
  let left ← runIn (localState env name execution visit s) (runLocal env nested rounds name task)
  finishItem name task (localState env name execution visit s) operation left

/-! ## Scopes -/

/-- `jump_to`: the position of the target. -/
def jump (scope : ScopePlan) (target : String) (again : ℕ → Exec W Unit) : Exec W Unit := do
  update fun s => { s with jumpTo := none }
  match scope.find target with
  | some index => again index
  | none => throw (.fault ⟨⟨"workflow_execution_error",
      "task transition target not found: " ++ target, []⟩, 500, none⟩)

/-- Where a scope goes after a task: it is left, or it goes on at a position. -/
def nextTask (scope : ScopePlan) (index : ℕ) (again : ℕ → Exec W Unit) : Exec W Unit := do
  let s ← frame
  if s.stop then pure ()
  else if s.scopeExit then update fun s => { s with scopeExit := false }
  else
    match s.jumpTo with
    | none => again (index + 1)
    | some target => jump scope target again

def runPosition (item : String → TaskDefinition → Pointer → Exec W Unit) (again : ℕ → Exec W Unit)
    (scope : ScopePlan) (index : ℕ) (name : String) (task : TaskDefinition) : Exec W Unit := do
  ask env.checkpoint
  item name task (scope.taskReference index name)
  nextTask scope index again

/-- One round of the loop of `_run_tasks`: `item` runs a task, `again` the next round. -/
def runStep (item : String → TaskDefinition → Pointer → Exec W Unit) (again : ℕ → Exec W Unit)
    (scope : ScopePlan) (index : ℕ) : Exec W Unit :=
  match scope.tasks[index]? with
  | none => pure ()
  | some (name, task) => do
      let ended ← flowEnded env
      if ended.isSome then update fun s => { s with stop := true }
      else runPosition env item again scope index name task

/-- `_run_tasks` from a position, within a number of rounds. -/
def runFrom : ℕ → ScopePlan → ℕ → Exec W Unit
  | 0, _, _ => throw .exhausted
  | rounds + 1, scope, index =>
    runStep env (runTaskItem env (fun scope => runFrom rounds scope 0) rounds)
      (runFrom rounds scope) scope index

/-- `_run_tasks`. -/
def runTasks (rounds : ℕ) (scope : ScopePlan) : Exec W Unit := runFrom env rounds scope 0

/-- The run of a workflow: `_run_tasks` of its tasks on its input. -/
def run (rounds : ℕ) (tasks : TaskList) (bindings : Table String Json) (data : Json) (world : W) :
    Machine W :=
  final (runTasks env rounds ⟨tasks, ["do"], true⟩) (Machine.initial bindings data world)

end Interpreter
