/-
# Validation of capabilities

`validate_capabilities` of `workflow.py`: the checks of the tasks of a workflow before it is
planned.  In every scope the names of the tasks are distinct, every task is a mapping of a kind
that is supported, and every transition names a task of the scope; the scopes nested in a task are
checked in the same way, and so is each reusable function, as a scope of its own.

What the checks of schemas, calls, events and expressions look at is a parameter of the model.
-/
import OpenWorkflowAgent.WorkflowPlans

open Definitions WorkflowPlan

namespace CapabilityValidation

/-! ## Walking through a scope -/

/-- A task as `_walk_tasks` yields it.  `name` is the last token of the reference. -/
structure WalkedTask where
  reference : Pointer
  name : String
  definition : Json

/-- The tasks of one item; what is not a mapping is yielded as it is. -/
def walkItem (start : Pointer) (indexed : Bool) (item : Json × ℕ) : List WalkedTask :=
  match item.1 with
  | .obj fields => fields.map fun field =>
    ⟨(if indexed then start ++ [toString item.2] else start) ++ [field.1], field.1, field.2⟩
  | other => [⟨start ++ [toString item.2], toString item.2, other⟩]

/-- `_walk_tasks`. -/
def walkTasks (tasks : Json) (start : Pointer) (indexed : Bool) : List WalkedTask :=
  match tasks with
  | .arr items => items.zipIdx.flatMap (walkItem start indexed)
  | _ => []

/-! ## Transitions -/

def flowDirectives : List String := ["continue", "exit", "end"]

/-- A target that a scope with these names may name. -/
def targetAllowed (names : List String) (target : Option Json) : Bool :=
  match target with
  | none | some .null => true
  | some (.str name) => name ∈ flowDirectives ∨ name ∈ names
  | some _ => false

/-- `validate`, of one transition. -/
def validateTarget (names : List String) (reference : Pointer) (target : Option Json) :
    Except OwaError Unit :=
  raiseIf (targetAllowed names target = false)
    ⟨.workflowSemanticError, "transition target must belong to the current scope",
      [("reference", .str (Pointer.text reference)), ("target", target.getD .null)]⟩

def switchCases (reference : Pointer) (definition : Json) :
    Except OwaError (List (Pointer × String × Json)) := do
  let entries ← ((definition.field? "switch").getD (.arr [])).iterate
  let cases ← entries.zipIdx.mapM fun entry => do
    let fields ← entry.1.entries
    return fields.map fun field =>
      (reference ++ ["switch", toString entry.2, field.1], field.1, field.2)
  return cases.flatten

/-- The transitions of the cases of a switch; `seen` are the names of the cases before. -/
def validateCases (names : List String) :
    List String → List (Pointer × String × Json) → Except OwaError Unit
  | _, [] => .ok ()
  | seen, (path, name, case) :: rest => do
      raiseIf (name ∈ seen) (semanticError "duplicate switch case name" path)
      let next ← case.getOr "then" .null
      validateTarget names (path ++ ["then"]) (some next)
      validateCases names (name :: seen) rest

/-- `_validate_transitions`. -/
def validateTransitions (definition : Json) (reference : Pointer) (names : List String) :
    Except OwaError Unit := do
  validateTarget names (reference ++ ["then"]) (definition.field? "then")
  validateTarget names (reference ++ ["catch", "then"])
    ((definition.field? "catch").bind (Json.field? "then"))
  let cases ← switchCases reference definition
  validateCases names [] cases
  raiseIf (1 < (cases.filter fun case => (case.2.2.field? "when").isNone).length)
    (semanticError "switch must have at most one default case" (reference ++ ["switch"]))

/-! ## Tasks -/

/-- The checks of what this model does not look into: the profile of a scope, the data of a task
and its retry policy, what it calls, the events it emits or listens to and what it runs, and the
expressions of the workflow. -/
structure OtherCapabilities where
  profile : Json → Except OwaError Unit
  data : Pointer → Json → Except OwaError Unit
  call : Pointer → Json → Except OwaError Unit
  activity : Pointer → Json → Except OwaError Unit
  expressions : Json → Except OwaError Unit

/-- `_unsupported`. -/
def unsupported (feature : String) (reference : Pointer) : OwaError :=
  ⟨.unsupportedWorkflowFeature, feature ++ " is not supported by the current OWA profile",
    [("reference", .str (Pointer.text reference))]⟩

def isText : Option Json → Bool
  | some (.str _) => true
  | _ => false

def isMapping : Json → Bool
  | .obj _ => true
  | _ => false

def validateShape (checks : OtherCapabilities) (names : List String) (task : WalkedTask) :
    Except OwaError Unit := do
  raiseIf (isMapping task.definition = false) (OwaError.plain .workflowSemanticError
    ("task " ++ Pointer.text task.reference ++ " must be an object"))
  checks.data task.reference task.definition
  validateTransitions task.definition task.reference names
  raiseIf (isText (task.definition.field? "timeout") = true)
    (unsupported "named timeout" (task.reference ++ ["timeout"]))
  raiseIf (isText ((task.definition.field? "raise").bind (Json.field? "error")) = true)
    (unsupported "named error" (task.reference ++ ["raise", "error"]))
  raiseIf (∀ kind ∈ supportedTasks, task.definition.field? kind = none)
    (OwaError.plain .unsupportedWorkflowFeature
      ("no supported task type found at " ++ Pointer.text task.reference))
  checks.call task.reference task.definition

def validateTask (checks : OtherCapabilities) (nested : Pointer → Bool → Json → Except OwaError Unit)
    (names : List String) (task : WalkedTask) : Except OwaError Unit := do
  validateShape checks names task
  (taskScopes task.definition).forM fun scope =>
    nested (task.reference ++ scope.suffix) scope.indexed (.arr scope.items)
  checks.activity task.reference task.definition

/-- The tasks of a scope one after the other; `seen` are the names of those before. -/
def validateEach (task : WalkedTask → Except OwaError Unit) :
    List String → List WalkedTask → Except OwaError Unit
  | _, [] => .ok ()
  | seen, first :: rest => do
      raiseIf (first.name ∈ seen) (semanticError "duplicate task name in scope" first.reference)
      task first
      validateEach task (first.name :: seen) rest

/-- `validate_capabilities` of a scope, without the reusable functions. -/
def validateScope (checks : OtherCapabilities) :
    ℕ → Pointer → Bool → Json → Except OwaError Unit
  | 0, _, _, _ => .error recursionError
  | depth + 1, start, indexed, tasks => do
      checks.profile tasks
      validateEach (validateTask checks (validateScope checks depth)
        ((walkTasks tasks start indexed).map WalkedTask.name)) [] (walkTasks tasks start indexed)

/-- `validate_capabilities` of a workflow: its tasks, and each function as a scope of its own. -/
def validateCapabilities (checks : OtherCapabilities) (depth : ℕ) (workflow : Json) :
    Except OwaError Unit := do
  validateScope checks depth ["do"] true ((workflow.field? "do").getD (.arr []))
  let functions ← (functionsOf workflow).entries
  functions.forM fun field =>
    validateScope checks depth ["use", "functions"] false (.arr [.obj [field]])
  checks.expressions workflow

/-! ## What acceptance says -/

section Accepted

variable {checks : OtherCapabilities}

theorem forM_eq_ok {α : Type} {f : α → Except OwaError Unit} {l : List α}
    (h : l.forM f = .ok ()) {a : α} (ha : a ∈ l) : f a = .ok () := by
  induction l with
  | nil => cases ha
  | cons b l ih =>
    obtain ⟨u, hb, hl⟩ := except_bind_eq_ok.mp (show (f b >>= fun _ => l.forM f) = .ok () from h)
    rcases List.mem_cons.mp ha with rfl | ha
    · exact hb
    · exact ih hl ha

theorem validateEach_eq_ok {task : WalkedTask → Except OwaError Unit} {seen : List String}
    {tasks : List WalkedTask} (h : validateEach task seen tasks = .ok ()) :
    (tasks.map WalkedTask.name).Nodup ∧ (∀ t ∈ tasks, t.name ∉ seen) ∧
      ∀ t ∈ tasks, task t = .ok () := by
  induction tasks generalizing seen with
  | nil => exact ⟨List.nodup_nil, by simp, by simp⟩
  | cons first rest ih =>
    simp only [validateEach, except_eq_ok] at h
    obtain ⟨hfresh, hfirst, hrest⟩ := h
    obtain ⟨hnodup, hunseen, hall⟩ := ih hrest
    refine ⟨?_, ?_, ?_⟩
    · rw [List.map_cons, List.nodup_cons]
      refine ⟨fun hmem => ?_, hnodup⟩
      obtain ⟨t, ht, hname⟩ := List.mem_map.mp hmem
      exact hunseen t ht (hname ▸ List.mem_cons_self)
    · intro t ht
      rcases List.mem_cons.mp ht with rfl | ht
      · exact hfresh
      · exact fun hmem => hunseen t ht (List.mem_cons_of_mem _ hmem)
    · intro t ht
      rcases List.mem_cons.mp ht with rfl | ht
      · exact hfirst
      · exact hall t ht

theorem validateScope_eq_ok {depth : ℕ} {start : Pointer} {indexed : Bool} {tasks : Json}
    (h : validateScope checks (depth + 1) start indexed tasks = .ok ()) :
    ((walkTasks tasks start indexed).map WalkedTask.name).Nodup ∧
    ∀ task ∈ walkTasks tasks start indexed,
      validateShape checks ((walkTasks tasks start indexed).map WalkedTask.name) task = .ok () ∧
      ∀ scope ∈ taskScopes task.definition,
        validateScope checks depth (task.reference ++ scope.suffix) scope.indexed
          (.arr scope.items) = .ok () := by
  simp only [validateScope, except_bind_eq_ok] at h
  obtain ⟨_, -, h⟩ := h
  obtain ⟨hnodup, -, hall⟩ := validateEach_eq_ok h
  refine ⟨hnodup, fun task htask => ?_⟩
  have hok := hall task htask
  simp only [validateTask, except_bind_eq_ok] at hok
  obtain ⟨u, hshape, v, hscopes, -⟩ := hok
  exact ⟨hshape, fun scope hscope => forM_eq_ok hscopes hscope⟩

end Accepted

end CapabilityValidation
