/-
# Competitive forks

`forks.py` and `_run_competing_fork` of `workflow.py`: the branches of a competitive
fork race, and the first one that finishes writes the decision of the fork.  The
decision is a row of `competitive_fork_decisions` under the identity of the fork:
`claim` inserts it unless a row is there and answers the row that is there, `get`
reads it, and `mark_drained` sets its second column when the losing branches are
cancelled.

An executor is modelled as the phases of `_run_competing_fork`, cut where it awaits
or uses the database.  Inside one executor only one piece of code runs at a time,
and `store.claim` does not await, so its insert and its read are one phase apart
(`claiming`) with no other step of that executor between them; other executors share
the database only.  What a branch does before it ends is arbitrary (`BranchEnd`), and
so is the moment at which some task ends the whole workflow (`ForkFlow`).

A stored payload keeps the order of the fields of its objects, which `sort_keys`
changes and Python's equality ignores.
-/
import OpenWorkflowAgent.Ownership

open Transaction

/-! ## Identities and decisions -/

/-- `ForkIdentity`; its constructor refuses any other value. -/
structure ForkIdentity where
  invocationId : String
  workflowFingerprint : String
  taskReference : String
  occurrence : List (String × ℕ)
  named : invocationId ≠ "" ∧ workflowFingerprint ≠ "" ∧ taskReference ≠ ""
  placed : occurrence ≠ [] ∧ ∀ step ∈ occurrence, step.1 ≠ "" ∧ 1 ≤ step.2
  deriving DecidableEq

/-- How the winning branch ended. -/
inductive ForkStatus where
  | completed
  | faulted
  | ended
  deriving DecidableEq, Repr

/-- `OwaError.as_dict`. -/
structure ErrorFields where
  code : String
  message : String
  details : List (String × Json)
  deriving DecidableEq, Repr

def ErrorFields.value (e : ErrorFields) : Json :=
  .obj [("code", .str e.code), ("message", .str e.message), ("details", .obj e.details)]

structure DecisionFields where
  winner : ℕ
  status : ForkStatus
  output : Json
  context : Json
  error : Option ErrorFields
  operationId : Option String
  cancellationIntents : List ℕ
  errorStatusCode : Option ℕ
  deriving DecidableEq, Repr

namespace DecisionFields

/-- What `__post_init__` raises. -/
def problem (d : DecisionFields) : Option OwaError :=
  if (d.status = .faulted) ≠ (d.error ≠ none) then
    some (.plain .valueError "competitive fork fault decisions require an error")
  else if d.errorStatusCode.any fun c => ¬ (100 ≤ c ∧ c ≤ 599) then
    some (.plain .valueError "competitive fork common error status is invalid")
  else if ¬ d.cancellationIntents.Nodup ∨ d.winner ∈ d.cancellationIntents then
    some (.plain .valueError "competitive fork cancellation intents must name distinct losers")
  else none

/-- `validate_expression_data` accepts the output, the context and the error. -/
def validData (d : DecisionFields) : Bool :=
  d.output.valid ∧ d.context.valid ∧ (d.error.elim Json.null ErrorFields.value).valid

end DecisionFields

/-- `ForkDecision`: fields that pass `__post_init__`, and the cleanup receipt. -/
structure ForkDecision extends DecisionFields where
  drained : Bool
  sound : toDecisionFields.problem = none
  deriving DecidableEq

/-- Build a decision, or raise what `__post_init__` raises. -/
def ForkDecision.make (fields : DecisionFields) (drained : Bool) : Except OwaError ForkDecision :=
  match h : fields.problem with
  | none => .ok ⟨fields, drained, h⟩
  | some e => .error e

/-- A row of `competitive_fork_decisions`, without its key. -/
structure DecisionRow where
  payload : DecisionFields
  drained : Bool
  deriving DecidableEq

/-- The decisions, and the ownership table that guards the writes. -/
structure ForkStore where
  owners : OwnershipStore
  decisions : Table String DecisionRow

/-! ## The store -/

namespace ForkDecisions

/-- The `except Exception` clauses that replace the error. -/
def unreadable : OwaError :=
  .plain .workflowExecutionError "competitive fork decision could not be read"

/-- What a failed write raises: a lost lease as it is, anything else replaced. -/
def writeError (message : String) (e : OwaError) : OwaError :=
  if e.kind = .invocationStateConflict then e else .plain .workflowExecutionError message

variable (key : ForkIdentity → String)

/-- `get`. -/
def get (identity : ForkIdentity) : Transaction OwaError ForkStore (Option ForkDecision) := do
  let found ← read fun s => s.decisions.lookup (key identity)
  match found with
  | none => return none
  | some row => mapError (fun _ => unreadable) do
      raiseIf (row.payload.validData = false) invalidExpressionData
      let decision ← orRaiseError (ForkDecision.make row.payload row.drained)
      return some decision

/-- The transaction of `claim`: insert the decision unless there is one. -/
def insertDecision (identity : ForkIdentity) (decision : ForkDecision)
    (lease : Option ExecutionLease) : Transaction OwaError ForkStore Unit :=
  mapError (writeError "competitive fork decision could not be stored") do
    raiseIf (decision.validData = false) invalidExpressionData
    Ownership.ownedWriteTransaction ForkStore.owners lease identity.invocationId
      identity.workflowFingerprint
      (write fun s => { s with
        decisions := s.decisions.insertNew (key identity) ⟨decision.toDecisionFields, false⟩ })

/-- The answer of `claim`: the row that is there after the insert. -/
def recordedDecision (identity : ForkIdentity) : Transaction OwaError ForkStore ForkDecision := do
  let recorded ← get key identity
  orRaise recorded (.plain .workflowExecutionError "competitive fork winner was not recorded")

/-- `mark_drained`. -/
def markDrained (identity : ForkIdentity) (lease : Option ExecutionLease) :
    Transaction OwaError ForkStore Unit :=
  mapError (writeError "competitive fork cleanup could not be recorded") <|
    Ownership.ownedWriteTransaction ForkStore.owners lease identity.invocationId
      identity.workflowFingerprint do
        let found ← read fun s => s.decisions.lookup (key identity)
        raiseIf (found = none) (.plain .valueError "competitive fork decision is absent")
        write fun s => { s with
          decisions := s.decisions.updateWhere (key identity) (fun _ => true)
            (fun row => { row with drained := true }) }

end ForkDecisions

/-! ## Branches and their outcomes -/

/-- An error as an executor raises it: the fields of `as_dict`, and what routes it. -/
structure RaisedError where
  fields : ErrorFields
  statusCode : ℕ
  operationId : Option String
  deriving DecidableEq, Repr

/-- What `_run_tasks` of a branch ends with.  `finished` carries the operation id of the branch
state; a fault outside the error contract has no fields of its own. -/
inductive BranchEnd where
  | finished (data context : Json) (operationId : String)
  | faulted (context : Json) (error : Option RaisedError)
  | suspended
  | uncertain (error : OwaError)
  deriving DecidableEq

inductive ForkResult where
  | returns (output : Json)
  /-- The fork returns the output, and the workflow ends with it. -/
  | ends (output context : Json)
  | raises (error : RaisedError)
  deriving DecidableEq, Repr

/-- The error of a branch; a fault outside the contract gets a common one. -/
def branchError (error : Option RaisedError) : RaisedError :=
  error.getD ⟨⟨"workflow_execution_error", "competitive fork branch failed", []⟩, 500, none⟩

/-- The other branches of `index`, in order. -/
def otherBranches (branches index : ℕ) : List ℕ :=
  (List.range branches).filter fun i => i ≠ index

/-- The decision that a branch proposes; `ended` says that the branch ended the workflow. -/
def proposedFields (branches index : ℕ) (ended : Bool) : BranchEnd → Option DecisionFields
  | .finished data context operationId =>
    some ⟨index, if ended then .ended else .completed, data, context, none, some operationId,
      otherBranches branches index, none⟩
  | .faulted context error =>
    some ⟨index, .faulted, .null, context, some (branchError error).fields,
      (branchError error).operationId, otherBranches branches index,
      some (branchError error).statusCode⟩
  | .suspended | .uncertain _ => none

/-- What the end of a branch means for the fork that it wins. -/
def branchResult (ended : Bool) : BranchEnd → Option ForkResult
  | .finished data context _ => some (if ended then .ends data context else .returns data)
  | .faulted _ error => some (.raises (branchError error))
  | .suspended | .uncertain _ => none

/-- The status code of the class that an error is raised as again. -/
def defaultStatus (code : String) : ℕ := if code = "invocation_cancelled" then 409 else 500

/-- `_fork_decision_result`. -/
def forkDecisionResult (decision : DecisionFields) : ForkResult :=
  match decision.error with
  | some error =>
    .raises ⟨error, decision.errorStatusCode.getD (defaultStatus error.code),
      decision.operationId⟩
  | none =>
    if decision.status = .ended then .ends decision.output decision.context
    else .returns decision.output

/-! ## Executors -/

/-- Who ended the whole workflow, as an executor of the fork sees it. -/
inductive ForkFlow where
  | running
  | endedBy (index : ℕ)
  | endedElsewhere
  deriving DecidableEq, Repr

/-- The race inside one executor: the branches that are done, the `completion` future and who
ended the workflow. -/
structure Race where
  done : List ℕ
  completion : Option (Except OwaError ForkDecision)
  flow : ForkFlow

/-- What an executor of a fork is doing. -/
inductive Phase where
  /-- It has not asked for a saved decision. -/
  | start
  /-- A saved decision was found. -/
  | replaying (decision : ForkDecision)
  /-- The branches run. -/
  | racing (race : Race)
  /-- A branch has committed its claim and has not read the answer. -/
  | claiming (race : Race)
  /-- The race is decided and the losing branches are cancelled. -/
  | draining (decision : ForkDecision)
  | drained (decision : ForkDecision)
  /-- `_run_competing_fork` has answered. -/
  | answered (result : ForkResult)
  /-- It returned the data it was given: the workflow was ended by somebody else (`superseded`),
  or there are no branches. -/
  | passed (superseded : Bool)
  /-- It raised something that is not the outcome of a branch. -/
  | failed (error : OwaError)

namespace Race

/-- A race with every branch running. -/
def fresh : Race := ⟨[], none, .running⟩

/-- The branch has ended and will not run again. -/
def finish (index : ℕ) (race : Race) : Race := { race with done := index :: race.done }

/-- `completion.set_result` and `completion.set_exception`. -/
def complete (answer : Except OwaError ForkDecision) (race : Race) : Race :=
  { race with completion := some answer }

/-- The branch may claim: nothing is decided, and the workflow was not ended by anybody else. -/
def mayClaim (index : ℕ) (race : Race) : Bool :=
  race.completion.isNone ∧ (race.flow = .running ∨ race.flow = .endedBy index)

/-- The workflow was ended by this branch. -/
def endedBy (index : ℕ) (race : Race) : Bool := race.flow = .endedBy index

end Race

/-- A branch that has run to its end: the fork, the branch, whether it ended the workflow, and
what it ended with. -/
structure Finish where
  identity : ForkIdentity
  index : ℕ
  ended : Bool
  result : BranchEnd
  deriving DecidableEq

/-- Executors of forks over one database.  `finishes` lists the branches that came to their end;
no code reads it. -/
structure ForkSystem (ι : Type) where
  store : ForkStore
  phases : ι → Phase
  finishes : List Finish

namespace ForkSystem

variable {ι : Type} [DecidableEq ι]

/-- An executor goes on to another phase. -/
def goto (w : ForkSystem ι) (i : ι) (phase : Phase) : ForkSystem ι :=
  { w with phases := Function.update w.phases i phase }

theorem goto_self {w : ForkSystem ι} {i : ι} {phase : Phase} : (w.goto i phase).phases i = phase :=
  Function.update_self ..

theorem goto_other {w : ForkSystem ι} {i j : ι} {phase : Phase} (h : j ≠ i) :
    (w.goto i phase).phases j = w.phases j :=
  Function.update_of_ne h ..

end ForkSystem

section Executors

variable {ι : Type} [DecidableEq ι] (key : ForkIdentity → String) (branches : ForkIdentity → ℕ)
  (forkOf : ι → ForkIdentity)

open ForkDecisions ForkSystem

/-- One step of an executor, or of the store under other work of the deployment.  `branches`
gives the number of branches that the frozen workflow has at a fork, and `forkOf` the fork that
an executor runs. -/
inductive ForkStep (w : ForkSystem ι) : ForkSystem ι → Prop where
  /-- A fork without branches returns its data. -/
  | empty (i : ι) (at_start : w.phases i = .start) (none_there : branches (forkOf i) = 0) :
      ForkStep w (w.goto i (.passed false))
  /-- `store.get` finds a decision. -/
  | found (i : ι) (decision : ForkDecision) (at_start : w.phases i = .start)
      (some_there : branches (forkOf i) ≠ 0)
      (run : (get key (forkOf i)).run w.store = .ok (some decision, w.store)) :
      ForkStep w (w.goto i (.replaying decision))
  /-- `store.get` finds none, and the branches start. -/
  | launch (i : ι) (at_start : w.phases i = .start) (some_there : branches (forkOf i) ≠ 0)
      (run : (get key (forkOf i)).run w.store = .ok (none, w.store)) :
      ForkStep w (w.goto i (.racing .fresh))
  /-- A replay of a decision whose cleanup is recorded. -/
  | replayed (i : ι) (decision : ForkDecision) (phase : w.phases i = .replaying decision)
      (clean : decision.drained = true) :
      ForkStep w (w.goto i (.answered (forkDecisionResult decision.toDecisionFields)))
  /-- A replay that records the cleanup first. -/
  | replayedAfter (i : ι) (decision : ForkDecision) (lease : Option ExecutionLease)
      (store : ForkStore) (phase : w.phases i = .replaying decision)
      (unclean : decision.drained = false)
      (run : (markDrained key (forkOf i) lease).run w.store = .ok ((), store)) :
      ForkStep w ({ w with store := store }.goto i
        (.answered (forkDecisionResult decision.toDecisionFields)))
  /-- A task of a branch ends the workflow. -/
  | branchEndsFlow (i : ι) (race : Race) (index : ℕ) (phase : w.phases i = .racing race)
      (alive : index < branches (forkOf i) ∧ index ∉ race.done) (first : race.flow = .running) :
      ForkStep w (w.goto i (.racing { race with flow := .endedBy index }))
  /-- A task outside the fork ends the workflow. -/
  | otherEndsFlow (i : ι) (race : Race) (phase : w.phases i = .racing race)
      (first : race.flow = .running) :
      ForkStep w (w.goto i (.racing { race with flow := .endedElsewhere }))
  /-- A branch ends and claims nothing: it is suspended, its outcome is uncertain, the race is
  decided, or the workflow was ended by somebody else. -/
  | branchDone (i : ι) (race race' : Race) (index : ℕ) (result : BranchEnd)
      (phase : w.phases i = .racing race)
      (alive : index < branches (forkOf i) ∧ index ∉ race.done)
      (quiet : (result = .suspended ∧ race' = race.finish index) ∨
        (∃ e, result = .uncertain e ∧ race' = (if race.completion = none then
          (race.finish index).complete (.error e) else race.finish index)) ∨
        (race.mayClaim index = false ∧ race' = race.finish index)) :
      ForkStep w ({ w with
        finishes := ⟨forkOf i, index, race.endedBy index, result⟩ :: w.finishes }.goto i
          (.racing race'))
  /-- A branch ends, and its claim is committed. -/
  | branchClaims (i : ι) (race : Race) (index : ℕ) (result : BranchEnd) (fields : DecisionFields)
      (decision : ForkDecision) (lease : Option ExecutionLease) (store : ForkStore)
      (phase : w.phases i = .racing race)
      (alive : index < branches (forkOf i) ∧ index ∉ race.done)
      (free : race.mayClaim index = true)
      (proposed : proposedFields (branches (forkOf i)) index (race.endedBy index) result =
        some fields)
      (made : ForkDecision.make fields false = .ok decision)
      (run : (insertDecision key (forkOf i) decision lease).run w.store = .ok ((), store)) :
      ForkStep w ({ w with
        store := store
        finishes := ⟨forkOf i, index, race.endedBy index, result⟩ :: w.finishes }.goto i
          (.claiming (race.finish index)))
  /-- A branch ends, and its claim fails: the token is cancelled, the decision is not sound or
  not valid, or the lease is lost. -/
  | claimFails (i : ι) (race : Race) (index : ℕ) (result : BranchEnd) (e : OwaError)
      (phase : w.phases i = .racing race)
      (alive : index < branches (forkOf i) ∧ index ∉ race.done)
      (free : race.mayClaim index = true)
      (outcome : branchResult (race.endedBy index) result ≠ none) :
      ForkStep w ({ w with
        finishes := ⟨forkOf i, index, race.endedBy index, result⟩ :: w.finishes }.goto i
          (.racing ((race.finish index).complete (.error e))))
  /-- The claim reads the recorded decision. -/
  | claimed (i : ι) (race : Race) (decision : ForkDecision) (phase : w.phases i = .claiming race)
      (run : (recordedDecision key (forkOf i)).run w.store = .ok (decision, w.store)) :
      ForkStep w (w.goto i (.racing (race.complete (.ok decision))))
  /-- The claim cannot read the recorded decision. -/
  | claimUnread (i : ι) (race : Race) (e : OwaError) (phase : w.phases i = .claiming race) :
      ForkStep w (w.goto i (.racing (race.complete (.error e))))
  /-- The main coroutine sees the decision. -/
  | decided (i : ι) (race : Race) (decision : ForkDecision) (phase : w.phases i = .racing race)
      (answer : race.completion = some (.ok decision)) :
      ForkStep w (w.goto i (.draining decision))
  /-- The main coroutine sees the end of the workflow: there is no winner. -/
  | superseded (i : ι) (race : Race) (phase : w.phases i = .racing race)
      (answer : race.completion = none) (ended : race.flow = .endedElsewhere) :
      ForkStep w (w.goto i (.passed true))
  | cleaned (i : ι) (decision : ForkDecision) (lease : Option ExecutionLease) (store : ForkStore)
      (phase : w.phases i = .draining decision)
      (run : (markDrained key (forkOf i) lease).run w.store = .ok ((), store)) :
      ForkStep w ({ w with store := store }.goto i (.drained decision))
  | answers (i : ι) (decision : ForkDecision) (phase : w.phases i = .drained decision) :
      ForkStep w (w.goto i (.answered (forkDecisionResult decision.toDecisionFields)))
  /-- Any step may raise instead: a cancelled token, a failed claim, a lost lease, a suspension,
  a storage error. -/
  | fails (i : ι) (e : OwaError) : ForkStep w (w.goto i (.failed e))
  /-- A failing executor records the cleanup on its way out. -/
  | failsClean (i : ι) (e : OwaError) (lease : Option ExecutionLease) (store : ForkStore)
      (run : (markDrained key (forkOf i) lease).run w.store = .ok ((), store)) :
      ForkStep w ({ w with store := store }.goto i (.failed e))
  /-- The process stops, and another one runs the fork again. -/
  | restart (i : ι) : ForkStep w (w.goto i .start)
  /-- Leases move while executors run. -/
  | owners (owners : OwnershipStore) :
      ForkStep w { w with store := { w.store with owners := owners } }

abbrev ForkSteps : ForkSystem ι → ForkSystem ι → Prop :=
  Relation.ReflTransGen (ForkStep key branches forkOf)

end Executors
