/-
# What the pieces of the interpreter do to a run

Two kinds of facts that every statement about runs uses.

Most pieces are **quiet**: they evaluate expressions, ask the world, bind variables
and set flags, but leave the place of the task in the run (its path, references, visits
and visit scopes) and the trace as they are.  `Quietly` is closed under sequences and
branches, and the lemmas are simp lemmas, so a quiet piece is proved by unfolding it.

For the others there is an equation that says in which state the rest of the program
runs (`final_frame_bind` and its like).

A `Walk` is a family of relations between the states of a run with one rule for each place where
the interpreter leaves the quiet pieces; `Walk.runFrom` then has it for every run.
-/
import OpenWorkflowAgent.Interpreter

open Program

/-- The execution that an entry of the trace notes. -/
def Entry.execution? : Entry → Option Execution
  | .executes execution => some execution
  | .startsBlock _ | .failsBlock _ => none

/-- The same run in another frame. -/
def Machine.withFrame {W : Type} (m : Machine W) (s : ExecutionState) : Machine W :=
  { m with frame := s }

/-- What an iteration of a loop leaves: data, context and visits are taken back. -/
def Machine.iterated {W : Type} (m left : Machine W) : Machine W :=
  left.withFrame { m.frame with
    data := left.frame.data
    taskVisits := left.frame.taskVisits
    context := left.frame.context }

/-- What the handling of an event leaves: context and visits are taken back. -/
def Machine.handled {W : Type} (m left : Machine W) : Machine W :=
  left.withFrame { m.frame with
    context := left.frame.context
    taskVisits := left.frame.taskVisits
    stop := left.frame.stop }

/-- The run after the visit of a task has been counted. -/
def Machine.counted {W : Type} (m : Machine W) (execution : Pointer) : Machine W :=
  m.withFrame { m.frame with
    taskVisits := m.frame.taskVisits.put execution (m.frame.taskVisits.count execution + 1) }

namespace Interpreter

variable {W α β : Type}

/-- The run in the local state of a task. -/
def childOf (env : Environment W) (name : String) (execution : Pointer) (m : Machine W) : Machine W :=
  (m.counted execution).withFrame (localState env name execution
    (m.frame.taskVisits.count execution + 1) (m.counted execution).frame)

def blockStart (received : ExecutionState) (k : ℕ) (m : Machine W) : Machine W :=
  m.withFrame { m.frame with
    executionPath := received.executionPath ++
      [(m.frame.taskReference ++ ["@catch-attempt"], k + 1)] }

def attemptStart (path : ExecutionPath) (input : Json) (k : ℕ) (m : Machine W) : Machine W :=
  m.withFrame ({ m.frame with
    executionPath := path ++ [(m.frame.taskReference ++ ["@attempt"], k + 1)]
    data := input }.unbind ["input", "output"])

/-! ## Quiet pieces -/

/-- The place of the task in the run and the trace are the same. -/
structure Quiet (m m' : Machine W) : Prop where
  path : m'.frame.executionPath = m.frame.executionPath
  occurrence : m'.frame.occurrence = m.frame.occurrence
  reference : m'.frame.executionReference = m.frame.executionReference
  visits : m'.frame.taskVisits = m.frame.taskVisits
  scopes : m'.frame.visitScopes = m.frame.visitScopes
  trace : m'.trace = m.trace

theorem Quiet.refl (m : Machine W) : Quiet m m := ⟨rfl, rfl, rfl, rfl, rfl, rfl⟩

theorem Quiet.trans {m₁ m₂ m₃ : Machine W} (h : Quiet m₁ m₂) (h' : Quiet m₂ m₃) : Quiet m₁ m₃ :=
  ⟨h'.path.trans h.path, h'.occurrence.trans h.occurrence, h'.reference.trans h.reference,
    h'.visits.trans h.visits, h'.scopes.trans h.scopes, h'.trace.trans h.trace⟩

/-- Every run of the program is quiet. -/
def Quietly (x : Exec W α) : Prop := Leads x Quiet

@[simp] theorem quietly_pure (a : α) : Quietly (pure a : Exec W α) := Leads.pure Quiet.refl a

@[simp] theorem quietly_throw (stop : Stop) : Quietly (throw stop : Exec W α) :=
  Leads.throw Quiet.refl stop

@[simp] theorem quietly_ofOutcome (r : Except Stop α) : Quietly (ofOutcome r : Exec W α) :=
  Leads.ofOutcome Quiet.refl r

variable {x : Exec W α}

@[simp] theorem quietly_bind {f : α → Exec W β} (hx : Quietly x) (hf : ∀ a, Quietly (f a)) :
    Quietly (x >>= f) :=
  Leads.bind (R := Quiet) (fun _ _ _ => Quiet.trans) hx hf

@[simp] theorem quietly_map {f : α → β} (hx : Quietly x) : Quietly (f <$> x) := by
  rw [map_eq_pure_bind]
  exact quietly_bind hx fun a => quietly_pure _

@[simp] theorem quietly_ite {c : Prop} [Decidable c] {y : Exec W α} (hx : Quietly x)
    (hy : Quietly y) : Quietly (if c then x else y) :=
  Leads.ite hx hy

@[simp] theorem quietly_when {b : Bool} {x : Exec W Unit} (hx : Quietly x) : Quietly (when b x) :=
  Leads.when Quiet.refl hx

@[simp] theorem quietly_frame : Quietly (frame : Exec W ExecutionState) := Quiet.refl

@[simp] theorem quietly_flow : Quietly (flow : Exec W (Option FlowEnd)) := Quiet.refl

@[simp] theorem quietly_setFlow (end? : Option FlowEnd) : Quietly (setFlow end? : Exec W Unit) :=
  fun _ => ⟨rfl, rfl, rfl, rfl, rfl, rfl⟩

@[simp] theorem quietly_observe (query : W → α × W) : Quietly (observe query) :=
  fun _ => ⟨rfl, rfl, rfl, rfl, rfl, rfl⟩

@[simp] theorem quietly_ask (query : W → Except Stop α × W) : Quietly (ask query) := by
  intro m
  unfold final ask
  rcases query m.world with ⟨_ | _, w⟩ <;> exact ⟨rfl, rfl, rfl, rfl, rfl, rfl⟩

/-- A change of the frame that keeps the place of the task. -/
def KeepsPlace (f : ExecutionState → ExecutionState) : Prop :=
  ∀ s, (f s).executionPath = s.executionPath ∧ (f s).occurrence = s.occurrence ∧
    (f s).executionReference = s.executionReference ∧ (f s).taskVisits = s.taskVisits ∧
    (f s).visitScopes = s.visitScopes

theorem quietly_update {f : ExecutionState → ExecutionState} (h : KeepsPlace f) :
    Quietly (update f : Exec W Unit) := fun m =>
  ⟨(h m.frame).1, (h m.frame).2.1, (h m.frame).2.2.1, (h m.frame).2.2.2.1, (h m.frame).2.2.2.2, rfl⟩

@[simp] theorem quietly_bindVariable (name : String) (value : Json) :
    Quietly (update (ExecutionState.bind name value) : Exec W Unit) :=
  quietly_update fun _ => ⟨rfl, rfl, rfl, rfl, rfl⟩

@[simp] theorem quietly_noteOutput (result : Json) :
    Quietly (update (ExecutionState.noteOutput result) : Exec W Unit) := by
  refine quietly_update fun s => ?_
  unfold ExecutionState.noteOutput
  split <;> exact ⟨rfl, rfl, rfl, rfl, rfl⟩

@[simp] theorem quietly_currentData : Quietly (currentData : Exec W Json) := by simp [currentData]

@[simp] theorem quietly_demand (b : Bool) (stop : Stop) : Quietly (demand b stop : Exec W Unit) := by
  simp [demand]

variable (env : Environment W)

@[simp] theorem quietly_evaluate (expression data : Json) :
    Quietly (evaluate env expression data) := by
  simp [evaluate]

@[simp] theorem quietly_transform (expression : Option Json) (value : Json) :
    Quietly (transform env expression value) := by
  cases expression <;> simp [transform]

@[simp] theorem quietly_optionalCondition (expression : Option String) (fallback : Bool) :
    Quietly (optionalCondition env expression fallback) := by
  cases expression <;> simp [optionalCondition]

@[simp] theorem quietly_bothConditions (holds excepted : Option String) :
    Quietly (bothConditions env holds excepted) := by
  simp [bothConditions]

@[simp] theorem quietly_flowEnded : Quietly (flowEnded env) := by simp [flowEnded]

@[simp] theorem quietly_validateDataSchema (schema : Option Json) (value : Json) (label : String) :
    Quietly (validateDataSchema env schema value label) := by
  unfold validateDataSchema
  split <;> simp

@[simp] theorem quietly_applyTaskData (settings : TaskSettings) (result : Json) :
    Quietly (applyTaskData env settings result) := by
  refine quietly_bind (quietly_demand _ _) fun _ => ?_
  refine quietly_bind (quietly_noteOutput result) fun _ => ?_
  refine quietly_bind (quietly_transform env _ _) fun output => ?_
  refine quietly_bind (quietly_validateDataSchema env _ _ _) fun _ => ?_
  refine quietly_bind (quietly_bindVariable _ output) fun _ => ?_
  refine quietly_bind quietly_frame fun s => ?_
  refine quietly_bind (quietly_transform env _ _) fun exported => ?_
  refine quietly_bind (quietly_validateDataSchema env _ _ _) fun _ => quietly_bind ?_ fun _ => ?_
  · exact quietly_update fun _ => ⟨rfl, rfl, rfl, rfl, rfl⟩
  · exact quietly_pure output

@[simp] theorem quietly_applyTransition (transition : Option Transition) :
    Quietly (applyTransition transition : Exec W Unit) := by
  cases transition with
  | none => simp [applyTransition]
  | some transition => cases transition <;> exact fun _ => ⟨rfl, rfl, rfl, rfl, rfl, rfl⟩

@[simp] theorem quietly_settleTimed (r : Except Stop α) : Quietly (settleTimed env r) := by
  unfold settleTimed
  split <;> simp

@[simp] theorem quietly_runSwitch (cases : List (Option String × Option Transition))
    (fallback : Option Transition) : Quietly (runSwitch env cases fallback) := by
  induction cases generalizing fallback with
  | nil => simp [runSwitch]
  | cons entry rest ih =>
    obtain ⟨_ | expression, next⟩ := entry <;> simp [runSwitch, ih]

@[simp] theorem quietly_loopContinues (config : LoopSettings) (input : Json)
    (child : ExecutionState) : Quietly (loopContinues env config input child) := by
  unfold loopContinues
  split <;> simp

@[simp] theorem quietly_loopValues (value : Json) :
    Quietly (loopValues value : Exec W (List Json)) := by
  cases value <;> simp [loopValues]

@[simp] theorem quietly_joinEnded (fin : FlowEnd) : Quietly (joinEnded fin : Exec W Json) := by
  have hstop : Quietly (update fun s => { s with
      stop := true
      context := fin.context } : Exec W Unit) :=
    quietly_update fun _ => ⟨rfl, rfl, rfl, rfl, rfl⟩
  simp [joinEnded, hstop]

@[simp] theorem quietly_joinFork (runs : List BranchRun) : Quietly (joinFork env runs) := by
  refine quietly_bind (quietly_observe _) fun first => quietly_bind (quietly_flowEnded env) ?_
  intro ended
  split
  · simp
  · unfold joinOwner
    split <;> simp
  · simp
  · simp [joinResults]

@[simp] theorem quietly_applyDecision (decision : DecisionFields) :
    Quietly (applyDecision decision : Exec W Json) := by
  unfold applyDecision
  split <;> simp

@[simp] theorem quietly_answerDecision (decision : Option DecisionFields) :
    Quietly (answerDecision decision : Exec W Json) := by
  cases decision <;> simp [answerDecision]

@[simp] theorem quietly_catchMatches (clause : CatchSettings) (error : RaisedError) :
    Quietly (catchMatches env clause error) := by
  simp [catchMatches]

@[simp] theorem quietly_retries (clause : CatchSettings) (attempt : ℕ) :
    Quietly (retries env clause attempt) := by
  refine quietly_bind quietly_frame fun s => quietly_bind (quietly_observe _) fun scheduled => ?_
  refine quietly_ite (quietly_bind ?_ fun allowed => by simp) (quietly_pure false)
  simp [retryAllowed]

@[simp] theorem quietly_enterTask (name : String) (settings : TaskSettings) :
    Quietly (enterTask env name settings) := by
  refine quietly_bind quietly_frame fun s => ?_
  refine quietly_bind (quietly_validateDataSchema env _ _ _) fun _ => ?_
  refine quietly_bind (quietly_transform env _ _) fun input => quietly_bind ?_ fun _ => ?_
  · exact quietly_update fun _ => ⟨rfl, rfl, rfl, rfl, rfl⟩
  · exact quietly_pure input

@[simp] theorem quietly_runAction (work : Json) : Quietly (runAction env work) := by
  refine quietly_bind quietly_frame fun s => quietly_bind (quietly_ask _) fun result => ?_
  refine quietly_bind (quietly_update fun _ => ?_) fun _ => quietly_pure result.1
  exact ⟨rfl, rfl, rfl, rfl, rfl⟩

@[simp] theorem quietly_taskOutput (settings : TaskSettings) (result : TaskResult) :
    Quietly (taskOutput env settings result) := by
  simp [taskOutput]

@[simp] theorem quietly_ownTransition (task : TaskDefinition) :
    Quietly (ownTransition task : Exec W Unit) := by
  simp [ownTransition]

/-! ## Relations that quiet pieces do not disturb -/

/-- Quiet pieces before and after make no difference to `K`. -/
structure Absorbs (K : Machine W → Machine W → Prop) : Prop where
  quiet : ∀ {m m'}, Quiet m m' → K m m'
  before : ∀ {m₁ m₂ m₃}, Quiet m₁ m₂ → K m₂ m₃ → K m₁ m₃
  after : ∀ {m₁ m₂ m₃}, K m₁ m₂ → Quiet m₂ m₃ → K m₁ m₃

namespace Absorbs

variable {K : Machine W → Machine W → Prop}

theorem of_preorder (hquiet : ∀ {m m'}, Quiet m m' → K m m')
    (htrans : ∀ {m₁ m₂ m₃}, K m₁ m₂ → K m₂ m₃ → K m₁ m₃) : Absorbs K :=
  ⟨hquiet, fun h h' => htrans (hquiet h) h', fun h h' => htrans h (hquiet h')⟩

variable (hK : Absorbs K)

include hK

variable {x : Exec W α}

theorem quietly (h : Quietly x) : Leads x K := fun m => hK.quiet (h m)

theorem quietly_bind {f : α → Exec W β} (hx : Quietly x) (hf : ∀ a, Leads (f a) K) :
    Leads (x >>= f) K :=
  Leads.seq (R := Quiet) (S := K) (fun _ _ _ => hK.before) (fun _ _ => hK.quiet) hx hf

theorem bind_quietly {f : α → Exec W β} (hx : Leads x K) (hf : ∀ a, Quietly (f a)) :
    Leads (x >>= f) K :=
  Leads.seq (R := K) (S := Quiet) (fun _ _ _ => hK.after) (fun _ _ h => h) hx hf

theorem runTimed (timed : Bool) (hx : Leads x K) : Leads (Interpreter.runTimed env timed x) K := by
  unfold Interpreter.runTimed
  refine Leads.ite ?_ hx
  refine hK.quietly_bind (quietly_ask _) fun _ => ?_
  exact hK.bind_quietly hx.outcome fun r => quietly_settleTimed env r

theorem awaitWithCancellation (hx : Leads x K) :
    Leads (Interpreter.awaitWithCancellation env x) K := by
  unfold Interpreter.awaitWithCancellation
  refine hK.quietly_bind (quietly_ask _) fun _ => ?_
  refine hK.bind_quietly hx.outcome fun r => ?_
  exact Interpreter.quietly_bind (quietly_ask _) fun _ => quietly_ofOutcome r

/-- A task is its entry, what it is, and its result. -/
theorem runTask {nested : ScopePlan → Exec W Unit} {rounds : ℕ} {task : TaskDefinition}
    (name : String) (h : ∀ input, Leads (runKind env nested rounds input task) K) :
    Leads (Interpreter.runTask env nested rounds name task) K := by
  have hentered : Leads (runEntered env nested rounds name task) K := by
    refine hK.quietly_bind (quietly_enterTask env name _) fun input => ?_
    exact hK.bind_quietly (h input) fun data => quietly_pure _
  refine hK.quietly_bind (quietly_optionalCondition env _ _) fun runs => ?_
  refine Leads.ite hentered (hK.quietly ?_)
  exact Interpreter.quietly_bind quietly_currentData fun data => quietly_pure _

/-- The rounds of a scope, for a relation that follows the order of the run. -/
theorem runStep {item : String → TaskDefinition → Pointer → Exec W Unit}
    {again : ℕ → Exec W Unit} {scope : ScopePlan}
    (htrans : ∀ {m₁ m₂ m₃}, K m₁ m₂ → K m₂ m₃ → K m₁ m₃)
    (hitem : ∀ index name task, Leads (item name task (scope.taskReference index name)) K)
    (hagain : ∀ index, Leads (again index) K) (index : ℕ) :
    Leads (Interpreter.runStep env item again scope index) K := by
  have hstop : Quietly (update fun s => { s with stop := true } : Exec W Unit) :=
    quietly_update fun _ => ⟨rfl, rfl, rfl, rfl, rfl⟩
  have hexit : Quietly (update fun s => { s with scopeExit := false } : Exec W Unit) :=
    quietly_update fun _ => ⟨rfl, rfl, rfl, rfl, rfl⟩
  have hland : Quietly (update fun s => { s with jumpTo := none } : Exec W Unit) :=
    quietly_update fun _ => ⟨rfl, rfl, rfl, rfl, rfl⟩
  have hjump (target : String) : Leads (jump scope target again) K := by
    refine hK.quietly_bind hland fun _ => ?_
    split
    · exact hagain _
    · exact hK.quietly (quietly_throw _)
  have hnext : Leads (nextTask scope index again) K := by
    refine hK.quietly_bind quietly_frame fun s => ?_
    refine Leads.ite (hK.quietly (quietly_pure ())) (Leads.ite (hK.quietly hexit) ?_)
    split
    · exact hagain _
    · exact hjump _
  unfold Interpreter.runStep
  split
  · exact hK.quietly (quietly_pure ())
  · refine hK.quietly_bind (quietly_flowEnded env) fun ended => Leads.ite (hK.quietly hstop) ?_
    refine hK.quietly_bind (quietly_ask _) fun _ => ?_
    exact Leads.bind (R := K) (fun _ _ _ => htrans) (hitem index _ _) fun _ => hnext

end Absorbs

/-! ## Where the rest of a program runs -/

theorem final_frame_bind (f : ExecutionState → Exec W β) (m : Machine W) :
    final (frame >>= f) m = final (f m.frame) m := rfl

theorem final_flow_bind (f : Option FlowEnd → Exec W β) (m : Machine W) :
    final (flow >>= f) m = final (f m.flow) m := rfl

theorem final_update_bind (f : ExecutionState → ExecutionState) (g : Unit → Exec W β)
    (m : Machine W) : final (update f >>= g) m = final (g ()) (m.withFrame (f m.frame)) := rfl

theorem final_setFlow_bind (end? : Option FlowEnd) (g : Unit → Exec W β) (m : Machine W) :
    final (setFlow end? >>= g) m = final (g ()) { m with flow := end? } := rfl

theorem final_record_bind (entry : Entry) (g : Unit → Exec W β) (m : Machine W) :
    final (record entry >>= g) m = final (g ()) { m with trace := m.trace ++ [entry] } := rfl

theorem final_runIn_bind (child : ExecutionState) (body : Exec W α)
    (f : Except Stop α × ExecutionState → Exec W β) (m : Machine W) :
    final (runIn child body >>= f) m =
      final (f (result body (m.withFrame child), (final body (m.withFrame child)).frame))
        ((final body (m.withFrame child)).withFrame m.frame) := by
  have hok : runIn child body m =
      .ok (result body (m.withFrame child), (final body (m.withFrame child)).frame)
        ((final body (m.withFrame child)).withFrame m.frame) := by
    unfold runIn result final Machine.withFrame
    cases body { m with frame := child } <;> rfl
  show final (EStateM.bind (runIn child body) f) m = _
  rw [final, EStateM.bind, hok]
  rfl

/-- A program in a frame of its own: what follows runs in the old frame, unless it failed. -/
theorem final_inFrame_bind (child : ExecutionState) (body : Exec W α)
    (f : α × ExecutionState → Exec W β) (m : Machine W) :
    (∃ a, final (inFrame child body >>= f) m =
        final (f (a, (final body (m.withFrame child)).frame))
          ((final body (m.withFrame child)).withFrame m.frame)) ∨
      final (inFrame child body >>= f) m = (final body (m.withFrame child)).withFrame m.frame := by
  unfold inFrame
  rw [bind_assoc, final_runIn_bind]
  cases hresult : result body (m.withFrame child) with
  | ok a => exact Or.inl ⟨a, rfl⟩
  | error stop => exact Or.inr rfl

/-- `_operation_visit_scope` pushes a scope for its body and drops it afterwards. -/
theorem final_operationVisitScope (body : Exec W α) (m : Machine W) :
    final (operationVisitScope body) m =
      let left := final body (m.withFrame { m.frame with
        visitScopes := m.frame.visitScopes ++ [(m.frame.executionReference, m.frame.taskVisits)] })
      left.withFrame { left.frame with visitScopes := m.frame.visitScopes } := by
  unfold operationVisitScope
  rw [final_frame_bind, final_update_bind, final_ensuring]
  rfl

section Composite

variable (nested : ScopePlan → Exec W Unit)

/-- An iteration of a loop, unless it failed. -/
theorem final_runIteration_bind (body : TaskList) (child : ExecutionState)
    (f : Json × Bool → Exec W β) (m : Machine W) :
    let left := final (nested ⟨body, nestedReference child ["do"], true⟩) (m.withFrame child)
    final (runIteration nested body child >>= f) m =
        final (f (left.frame.data, left.frame.stop)) (m.iterated left) ∨
      final (runIteration nested body child >>= f) m = left.withFrame m.frame := by
  intro left
  unfold runIteration
  rw [bind_assoc]
  obtain ⟨a, h⟩ | h := final_inFrame_bind child
    (nested ⟨body, nestedReference child ["do"], true⟩) _ m
  · exact Or.inl h
  · exact Or.inr h

/-- A branch of a fork leaves the state of the fork as it is, and never fails. -/
theorem final_runBranch_bind (index : ℕ) (branch : TaskList) (f : BranchRun → Exec W β)
    (m : Machine W) :
    ∃ run, final (runBranch nested index branch >>= f) m =
      final (f run) { final (nested ⟨branch,
        nestedReference m.frame ["fork", "branches", toString index], false⟩)
          (m.withFrame m.frame.copyState) with
        frame := m.frame
        flow := m.flow } := by
  simp only [runBranch, bind_assoc, final_frame_bind, final_flow_bind, final_runIn_bind,
    final_setFlow_bind, pure_bind]
  exact ⟨_, rfl⟩

/-- A reusable function runs in a copy of the state; what is taken back keeps the place. -/
theorem final_runFunction (function : String) (body : TaskDefinition) (payload : Json)
    (m : Machine W) :
    Quiet ((final (nested ⟨[(function, body)], nestedReference m.frame ["call"], false⟩)
        (m.withFrame { m.frame.copyState with data := payload })).withFrame m.frame)
      (final (runFunction nested function body payload) m) := by
  unfold runFunction
  rw [final_frame_bind]
  obtain ⟨a, h⟩ | h := final_inFrame_bind { m.frame.copyState with data := payload }
    (nested ⟨[(function, body)], nestedReference m.frame ["call"], false⟩) _ m
  · rw [h]
    exact ⟨rfl, rfl, rfl, rfl, rfl, rfl⟩
  · rw [h]
    exact Quiet.refl _

/-- The handling of one event, unless it failed. -/
theorem final_listenerItem_bind (iterator : IteratorSettings) (body : TaskList) (ordinal : ℕ)
    (value : Json) (f : Json → Exec W β) (m : Machine W) :
    let left := final (handleItem env nested iterator body)
      (m.withFrame (itemState env iterator ordinal value m.frame))
    (∃ a, final (listenerItem env nested (some iterator) body ordinal value >>= f) m =
        final (f a) (m.handled left)) ∨
      final (listenerItem env nested (some iterator) body ordinal value >>= f) m =
        left.withFrame m.frame := by
  intro left
  simp only [listenerItem, bind_assoc, final_frame_bind]
  obtain ⟨a, h⟩ | h := final_inFrame_bind (itemState env iterator ordinal value m.frame)
    (handleItem env nested iterator body) _ m
  · exact Or.inl ⟨a, h⟩
  · exact Or.inr h

/-- The attempts of a block: `G` follows the order of the run within one attempt, and `A` keeps the
attempts apart. -/
theorem leads_runAttempts {nested : ScopePlan → Exec W Unit} {G : Machine W → Machine W → Prop}
    {A : ℕ → Machine W → Machine W → Prop} {received : ExecutionState} (hG : Absorbs G)
    (htrans : ∀ {m₁ m₂ m₃}, G m₁ m₂ → G m₂ m₃ → G m₁ m₃)
    (hbody : ∀ body, ∀ suffix ∈ [["try"], ["catch", "do"]], Leads (runBody nested body suffix) G)
    (hrecord : ∀ {entry : Entry}, entry.execution? = none → Leads (record entry) G)
    (hpush : ∀ {x : Exec W Unit}, Leads x G → Leads (operationVisitScope x) G)
    (hrefl : ∀ k m, A k m m) (hdone : ∀ {k m m'}, G (blockStart received k m) m' → A k m m')
    (hnext : ∀ {k m m₁ m'}, G (blockStart received k m) m₁ → A (k + 1) m₁ m' → A k m m')
    (body handler : TaskList) (clause : CatchSettings) (rounds k : ℕ) :
    Leads (runAttempts env nested body clause handler received rounds k) (A k) := by
  have htry (k : ℕ) : Leads (runRetryAttempt env nested body clause received k) G := by
    refine hG.quietly_bind quietly_frame fun s => ?_
    refine hG.quietly_bind (quietly_when (quietly_ask _)) fun _ => ?_
    refine Leads.bind (R := G) (fun _ _ _ => htrans) (hrecord rfl) fun _ => ?_
    exact hpush (hG.runTimed env _ (hbody body _ (by simp)))
  have hcatch (k : ℕ) (error : RaisedError) :
      Leads (catchFault env clause received k error) G := by
    refine hG.quietly_bind quietly_frame fun s => ?_
    refine Leads.bind (R := G) (fun _ _ _ => htrans) (hrecord rfl) fun _ => hG.quietly ?_
    refine quietly_bind (quietly_bindVariable _ _) fun _ => ?_
    refine quietly_bind (quietly_catchMatches env clause error) fun matched => ?_
    exact quietly_bind (quietly_demand _ _) fun _ => quietly_retries env clause k
  have hhandler : Leads (runHandler nested clause handler) G := by
    refine hG.bind_quietly (hbody handler _ (by simp)) fun _ => ?_
    exact quietly_bind (quietly_applyTransition _) fun _ => quietly_currentData
  induction rounds generalizing k with
  | zero => exact hrefl k
  | succ rounds ih =>
    intro m
    unfold runAttempts markBlock
    rw [final_update_bind, final_outcome_bind]
    have htried := htry k (blockStart received k m)
    change A k m (final _ (final _ (blockStart received k m)))
    split
    · exact hdone (hG.after htried (quietly_currentData _))
    · next error _ =>
      have hcaught := htrans htried (hcatch k error _)
      obtain ⟨again, -, hfinal⟩ | ⟨_, -, hfinal⟩ :=
        final_bind (catchFault env clause received k error) _
          (final (runRetryAttempt env nested body clause received k) (blockStart received k m)) <;>
        rw [hfinal]
      · split
        · exact hnext hcaught (ih (k + 1) _)
        · exact hdone (htrans hcaught (hhandler _))
      · exact hdone hcaught
    · exact hdone htried

end Composite

/-! ## Walks -/

/-- What a piece of a run may change. -/
abbrev Change (W : Type) := Machine W → Machine W → Prop

/-- An iteration of a loop, in a state at the same place. -/
def Iterates (scope : ScopePlan → Change W) (m left : Machine W) : Prop :=
  ∃ body child, Quiet m (m.withFrame child) ∧
    scope ⟨body, nestedReference child ["do"], true⟩ (m.withFrame child) left

/-- The tasks that handle the event after the `k`-th. -/
def Handles (scope : ScopePlan → Change W) (k : ℕ) (m left : Machine W) : Prop :=
  ∃ iterator body value, scope ⟨body,
    nestedReference (itemState env iterator (k + 1) value m.frame) ["foreach", "do"], true⟩
      (m.withFrame (itemState env iterator (k + 1) value m.frame)) left

/-- Relations that hold along every run, because they hold of its pieces: of the tasks of a scope,
inside an attempt of a task, of a noted attempt (`pushed`), and of a task in its own state.  Loops,
branches, events and attempts have relations of their own, by which their rounds are kept apart. -/
structure Walk (env : Environment W) where
  scope : ScopePlan → Change W
  inside : Change W
  pushed : Change W
  task : Change W
  loop : Change W
  branch : ℕ → Change W
  event : ℕ → Change W
  attempt : Change W
  policy : ExecutionPath → ℕ → Change W
  absorbs_scope : ∀ plan, Absorbs (scope plan)
  scope_trans : ∀ {plan m₁ m₂ m₃}, scope plan m₁ m₂ → scope plan m₂ m₃ → scope plan m₁ m₃
  absorbs_inside : Absorbs inside
  absorbs_task : Absorbs task
  absorbs_attempt : Absorbs attempt
  body : ∀ {tasks suffix m m'}, suffix ∈ [["do"], ["try"]] →
    scope ⟨tasks, nestedReference m.frame suffix, true⟩ m m' → inside m m'
  absorbs_loop : Absorbs loop
  loop_failed : ∀ {m left}, Iterates scope m left → loop m (left.withFrame m.frame)
  loop_next : ∀ {m m' left}, Iterates scope m left → loop (m.iterated left) m' → loop m m'
  loop_inside : ∀ {m m'}, loop m m' → inside m m'
  absorbs_branch : ∀ k, Absorbs (branch k)
  branch_next : ∀ {k tasks m m' left}, scope ⟨tasks,
      nestedReference m.frame ["fork", "branches", toString k], false⟩
      (m.withFrame m.frame.copyState) left →
    branch (k + 1) { left with
      frame := m.frame
      flow := m.flow } m' → branch k m m'
  branch_inside : ∀ {m m'}, branch 0 m m' → inside m m'
  call : ∀ {function body payload m left}, scope ⟨[(function, body)],
      nestedReference m.frame ["call"], false⟩
      (m.withFrame { m.frame.copyState with data := payload }) left →
    inside m (left.withFrame m.frame)
  absorbs_event : ∀ k, Absorbs (event k)
  event_skip : ∀ {k m m'}, event (k + 1) m m' → event k m m'
  event_failed : ∀ {k m left}, Handles env scope k m left → event k m (left.withFrame m.frame)
  event_done : ∀ {k m left}, Handles env scope k m left → event k m (m.handled left)
  /-- Only a durable listener goes on. -/
  event_next : ∀ {k m m' left}, env.durable = true → Handles env scope k m left →
    event (k + 1) (m.handled left) m' → event k m m'
  event_inside : ∀ {m m'}, event 0 m m' → inside m m'
  guarded : ∀ {nested : ScopePlan → Exec W Unit}, (∀ plan, Leads (nested plan) (scope plan)) →
    ∀ body handler clause rounds m,
      inside m (final (runAttempts env nested body clause handler m.frame rounds 0) m)
  push : ∀ {m left}, inside (m.withFrame { m.frame with
      visitScopes := m.frame.visitScopes ++ [(m.frame.executionReference, m.frame.taskVisits)] })
      left → pushed m (left.withFrame { left.frame with visitScopes := m.frame.visitScopes })
  execution : ∀ {operation m m'}, operationId env m.frame = .ok operation →
    pushed { m with trace := m.trace ++ [.executes ⟨m.frame.executionPath, m.frame.occurrence,
      m.frame.executionReference, operation⟩] } m' → attempt m m'
  policy_done : ∀ {path input k m m'}, attempt (attemptStart path input k m) m' →
    policy path k m m'
  policy_next : ∀ {path input k m m₁ m'}, attempt (attemptStart path input k m) m₁ →
    policy path (k + 1) m₁ m' → policy path k m m'
  policy_task : ∀ {m m'}, policy m.frame.executionPath 0 m m' → task m m'
  item_counted : ∀ {plan index name m},
    scope plan m (m.counted (plan.taskReference index name))
  item_failed : ∀ {plan : ScopePlan} {index name m left},
    task (childOf env name (plan.taskReference index name) m) left →
    scope plan m (left.withFrame (m.counted (plan.taskReference index name)).frame)
  item_done : ∀ {plan : ScopePlan} {index name m left output},
    task (childOf env name (plan.taskReference index name) m) left →
    scope plan m (left.withFrame (takeBack name output left.frame
      (m.counted (plan.taskReference index name)).frame))

namespace Walk

variable {env} (w : Walk env)

section Nested

variable {nested : ScopePlan → Exec W Unit} (hnested : ∀ plan, Leads (nested plan) (w.scope plan))

include hnested

theorem runIterations (config : LoopSettings) (body : TaskList) (input : Json) (index : ℕ)
    (values results : List Json) :
    Leads (runIterations env nested config body input index values results) w.loop := by
  induction values generalizing index results with
  | nil => exact w.absorbs_loop.quietly (quietly_pure _)
  | cons value _ ih =>
    intro m
    unfold Interpreter.runIterations
    rw [final_frame_bind]
    set child := iterationState config index value m.frame
    have hquiet := quietly_loopContinues env config input child m
    obtain ⟨continues, -, hfinal⟩ | ⟨stop, -, hfinal⟩ :=
      final_bind (loopContinues env config input child) _ m <;> rw [hfinal]
    swap
    · exact w.absorbs_loop.quiet hquiet
    set m₁ := final (loopContinues env config input child) m
    split
    swap
    · exact w.absorbs_loop.quiet hquiet
    refine w.absorbs_loop.before hquiet ?_
    have hiterates : Iterates w.scope m₁
        (final (nested ⟨body, nestedReference child ["do"], true⟩) (m₁.withFrame child)) :=
      ⟨body, child, ⟨hquiet.path.symm, hquiet.occurrence.symm, hquiet.reference.symm,
        hquiet.visits.symm, hquiet.scopes.symm, rfl⟩, hnested _ _⟩
    obtain hrest | hrest := final_runIteration_bind nested body child _ m₁ <;> rw [hrest]
    · refine w.loop_next hiterates ?_
      split
      · exact w.absorbs_loop.quiet ⟨rfl, rfl, rfl, rfl, rfl, rfl⟩
      · exact ih _ _ _
    · exact w.loop_failed hiterates

theorem runFor (config : LoopSettings) (body : TaskList) :
    Leads (runFor env nested config body) w.inside := by
  have hK := w.absorbs_inside
  refine hK.quietly_bind quietly_frame fun s => ?_
  refine hK.quietly_bind (quietly_evaluate env _ _) fun value => ?_
  refine hK.quietly_bind (quietly_loopValues value) fun values => ?_
  refine hK.bind_quietly (fun m => ?_) fun results => quietly_bind quietly_frame fun s => quietly_pure _
  exact w.loop_inside (w.runIterations hnested config body _ 0 values [] m)

theorem runBranches (index : ℕ) (branches : List TaskList) :
    Leads (runBranches nested index branches) (w.branch index) := by
  induction branches generalizing index with
  | nil => exact (w.absorbs_branch index).quietly (quietly_pure _)
  | cons branch rest ih =>
    intro m
    unfold Interpreter.runBranches
    obtain ⟨run, hfinal⟩ := final_runBranch_bind nested index branch
      (fun run => Interpreter.runBranches nested (index + 1) rest >>= fun runs => pure (run :: runs)) m
    rw [hfinal]
    exact w.branch_next (hnested _ _)
      ((w.absorbs_branch _).bind_quietly (ih (index + 1)) (fun runs => quietly_pure _) _)

theorem runFork (compete : Bool) (branches : List TaskList) :
    Leads (runFork env nested compete branches) w.inside := by
  have hK := w.absorbs_inside
  have hbranches : Leads (Interpreter.runBranches nested 0 branches) w.inside := fun m =>
    w.branch_inside (w.runBranches hnested 0 branches m)
  have hrace : Leads (raceFork env nested branches) w.inside := by
    refine hK.quietly_bind quietly_frame fun s => ?_
    refine hK.quietly_bind (quietly_ofOutcome _) fun operation => ?_
    refine hK.bind_quietly hbranches fun runs => ?_
    exact quietly_bind (quietly_ask _) fun decision => quietly_answerDecision decision
  have hcompete : Leads (runCompetingFork env nested branches) w.inside := by
    refine hK.quietly_bind quietly_frame fun s => ?_
    refine hK.quietly_bind (quietly_ask _) fun recorded => ?_
    split
    · exact hK.quietly (quietly_applyDecision _)
    · exact hrace
  refine Leads.ite (Leads.ite (hK.quietly quietly_currentData) hcompete) ?_
  exact hK.bind_quietly hbranches fun runs => quietly_joinFork env runs

theorem handles (iterator : IteratorSettings) (body : TaskList) (k : ℕ) (value : Json)
    (m : Machine W) : Handles env w.scope k m (final (handleItem env nested iterator body)
      (m.withFrame (itemState env iterator (k + 1) value m.frame))) := by
  refine ⟨iterator, body, value, ?_⟩
  have hK := w.absorbs_scope ⟨body,
    nestedReference (itemState env iterator (k + 1) value m.frame) ["foreach", "do"], true⟩
  have htail : Quietly (currentData >>= applyTaskData env iterator.settings) :=
    quietly_bind quietly_currentData fun data => quietly_applyTaskData env _ _
  unfold handleItem Program.when
  split
  · obtain ⟨_, -, hfinal⟩ | ⟨_, -, hfinal⟩ := final_bind (runBody nested body ["foreach", "do"]) _
      (m.withFrame (itemState env iterator (k + 1) value m.frame)) <;> rw [hfinal]
    · exact hK.after (hnested _ _) (htail _)
    · exact hnested _ _
  · exact hK.quiet (htail _)

/-- The events of a listener; one that is not durable has only one. -/
theorem runEvents (iterator : Option IteratorSettings) (body : TaskList) (rounds k : ℕ)
    (results : List Json) :
    Leads (runEvents env nested iterator body rounds (k + 1) results) (w.event k) := by
  induction rounds generalizing k results with
  | zero => exact (w.absorbs_event k).quietly (quietly_throw _)
  | succ rounds ih =>
    refine (w.absorbs_event k).quietly_bind quietly_frame fun s => ?_
    refine (w.absorbs_event k).quietly_bind (quietly_ask _) fun event => ?_
    cases event with
    | none => exact (w.absorbs_event k).quietly (quietly_pure _)
    | some event =>
      simp only [receiveEvent, bind_assoc, pure_bind]
      refine (w.absorbs_event k).quietly_bind (quietly_bindVariable _ _) fun _ m => ?_
      have htail (r : Json) : Leads (do
          let s ← frame
          let ended ← flowEnded env
          if (s.stop || ended.isSome || !env.durable) = true then pure (results ++ [r])
          else Interpreter.runEvents env nested iterator body rounds (k + 1 + 1) (results ++ [r]))
          (w.event (k + 1)) := by
        refine (w.absorbs_event _).quietly_bind quietly_frame fun s => ?_
        refine (w.absorbs_event _).quietly_bind (quietly_flowEnded env) fun ended => ?_
        exact Leads.ite ((w.absorbs_event _).quietly (quietly_pure _)) (ih (k + 1) _)
      cases iterator with
      | none => exact w.event_skip (htail event.2 m)
      | some iterator =>
        have hhandles := w.handles hnested iterator body k event.2 m
        obtain ⟨r, hrest⟩ | hrest := final_listenerItem_bind env nested iterator body (k + 1)
          event.2 _ m <;> rw [hrest]
        swap
        · exact w.event_failed hhandles
        cases hdurable : env.durable with
        | true => exact w.event_next hdurable hhandles (by simpa [hdurable] using htail r _)
        | false =>
          refine (w.absorbs_event k).after (w.event_done hhandles) ?_
          simp only [Bool.not_false, Bool.or_true, if_true]
          exact quietly_bind quietly_frame (fun s => quietly_bind (quietly_flowEnded env) fun ended =>
            quietly_pure _) _

/-- Whatever a task is. -/
theorem runKind (rounds : ℕ) (input : Json) (task : TaskDefinition) :
    Leads (runKind env nested rounds input task) w.inside := by
  have hK := w.absorbs_inside
  have hbody {suffix : List String} (hsuffix : suffix ∈ [["do"], ["try"]]) (body : TaskList) :
      Leads (do runBody nested body suffix; currentData) w.inside :=
    hK.bind_quietly (fun m => w.body hsuffix (hnested _ m)) fun _ => quietly_currentData
  cases task with
  | set => exact hK.quietly (quietly_evaluate env _ _)
  | action _ work => exact hK.quietly (quietly_runAction env work)
  | switch _ cases =>
    exact hK.quietly (quietly_bind (quietly_runSwitch env cases none) fun _ => quietly_currentData)
  | sequence _ body => exact hbody (by simp) body
  | attempt _ body => exact hbody (by simp) body
  | guarded _ body clause handler => exact fun m => w.guarded hnested body handler clause rounds m
  | loop _ config body => exact w.runFor hnested config body
  | fork _ compete branches => exact w.runFork hnested compete branches
  | listen _ iterator body =>
    refine hK.bind_quietly (fun m => ?_) fun results => quietly_pure _
    exact w.event_inside (w.runEvents hnested iterator body rounds 0 [] m)
  | call _ _ function body =>
    refine hK.quietly_bind (quietly_transform env _ _) fun payload m => ?_
    exact hK.after (w.call (hnested _ _)) (final_runFunction nested function body payload m)

theorem runAttempt (rounds : ℕ) (name : String) (task : TaskDefinition) :
    Leads (runAttempt env nested rounds name task) w.attempt := by
  have hK := w.absorbs_inside
  have htask := hK.runTimed env task.settings.timed (hK.awaitWithCancellation env
    (hK.runTask env name fun input => w.runKind hnested rounds input task))
  refine w.absorbs_attempt.quietly_bind (quietly_ask _) fun _ m => ?_
  rw [final_frame_bind]
  obtain ⟨operation, hoperation, hfinal⟩ | hfinal :=
    final_ofOutcome_bind (operationId env m.frame) _ m <;> rw [hfinal]
  · rw [final_record_bind]
    refine w.execution hoperation ?_
    rw [final_operationVisitScope]
    exact w.push (htask _)
  · exact w.absorbs_attempt.quiet (Quiet.refl m)

theorem policyAttempts (rounds : ℕ) (name : String) (task : TaskDefinition) (path : ExecutionPath)
    (input : Json) (remaining k : ℕ) :
    Leads (policyAttempts env nested rounds name task path input remaining k) (w.policy path k) := by
  induction remaining generalizing k with
  | zero => exact fun m => w.policy_done (w.runAttempt hnested rounds name task _)
  | succ _ ih =>
    intro m
    have hattempt := w.runAttempt hnested rounds name task (attemptStart path input k m)
    unfold Interpreter.policyAttempts markAttempt
    rw [final_update_bind, final_outcome_bind]
    split
    · exact w.policy_done hattempt
    · exact w.policy_next hattempt (ih (k + 1) _)
    · exact w.policy_done hattempt

theorem runLocal (rounds : ℕ) (name : String) (task : TaskDefinition) :
    Leads (runLocal env nested rounds name task) w.task := by
  have hpolicy : Leads (runWithPolicy env nested rounds name task) w.task := by
    refine w.absorbs_task.quietly_bind (quietly_when (quietly_ask _)) fun _ m => ?_
    rw [final_frame_bind]
    exact w.policy_task (w.policyAttempts hnested rounds name task m.frame.executionPath _ _ 0 m)
  exact w.absorbs_task.bind_quietly hpolicy fun r => quietly_taskOutput env _ r

/-- A task of a scope: its visit is counted, and it runs in its own state. -/
theorem runTaskItem (rounds : ℕ) (plan : ScopePlan) (index : ℕ) (name : String)
    (task : TaskDefinition) :
    Leads (runTaskItem env nested rounds name task (plan.taskReference index name))
      (w.scope plan) := by
  intro m
  have hlocal := w.runLocal hnested rounds name task
    (childOf env name (plan.taskReference index name) m)
  simp only [Interpreter.runTaskItem, countVisit, bind_assoc, final_frame_bind, final_update_bind,
    pure_bind]
  set m₁ := m.counted (plan.taskReference index name) with hm₁
  change w.scope plan m (final _ m₁)
  obtain ⟨operation, -, hfinal⟩ | hfinal := final_ofOutcome_bind _ _ m₁ <;> rw [hfinal]
  swap
  · exact w.item_counted
  rw [final_runIn_bind]
  unfold finishItem
  split
  · rw [final_update_bind]
    exact (w.absorbs_scope plan).after (w.item_done hlocal) (quietly_ownTransition task _)
  · exact w.item_failed hlocal

end Nested

/-- The tasks of a scope, within any number of rounds. -/
theorem runFrom (rounds : ℕ) (plan : ScopePlan) (index : ℕ) :
    Leads (runFrom env rounds plan index) (w.scope plan) := by
  induction rounds generalizing plan index with
  | zero => exact (w.absorbs_scope plan).quietly (quietly_throw _)
  | succ rounds ih =>
    refine (w.absorbs_scope plan).runStep env w.scope_trans (fun index name task => ?_)
      (fun index => ih plan index) index
    exact w.runTaskItem (fun plan => ih plan 0) rounds plan index name task

end Walk

end Interpreter
