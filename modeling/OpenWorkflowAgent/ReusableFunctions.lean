/-
# Calls between reusable functions

The check of `resolve_reusable_components` against recursion.  `Calls` is the call graph of a
workflow, read off by position: a function calls another one in its own definition or in a task
that is nested in it.  The traversal `calls` computes it, and the search of the heights is exact:
a workflow is refused exactly when its call graph has a cycle or a chain of more than 32 functions.

`normalize_workflow` has a check of its own while it expands the functions.  Its traversal unwraps
a fork branch whose task is named `do`, and so can see calls that are not in the call graph.  Where
no branch has that name the two agree, and the second check never fires.
-/
import OpenWorkflowAgent.DefinitionTrees

open Transaction WorkflowPlan

namespace Definitions

/-! ## The call graph -/

/-- A definition calls a function: itself, or in a task that is nested in it. -/
inductive CallsFrom (functions : Json) : Json → String → Prop where
  | own {definition : Json} {name : String} (hcall : definition.field? "call" = some (.str name))
      (hname : (functions.field? name).isSome) : CallsFrom functions definition name
  | nested {definition inner : Json} {place : Place} {index : ℕ} {task name : String}
      (htask : HasTask definition place index task inner) (hcall : CallsFrom functions inner name) :
      CallsFrom functions definition name

def Calls (workflow : Json) (caller callee : String) : Prop :=
  ∃ definition, (functionsOf workflow).field? caller = some definition ∧
    CallsFrom (functionsOf workflow) definition callee

/-! ## `calls` computes it -/

variable {inner value workflow : Json} {depth : ℕ}

theorem mem_entries {items : List Json} {definitions : List (List Json)}
    (h : (items.mapM fun item => do
      let fields ← item.entries
      return fields.map Prod.snd) = Except.ok definitions) : inner ∈ definitions.flatten ↔
      ∃ (index : ℕ) (name : String) (fields : List (String × Json)),
        items[index]? = some (.obj fields) ∧ (name, inner) ∈ fields := by
  have hall := forall₂_of_mapM h
  clear h
  induction hall with
  | nil => simp
  | @cons item fields' items definitions hitem _ ih =>
    obtain ⟨fields, hfields, hitem⟩ := except_bind_eq_ok.mp hitem
    cases hitem
    cases item with
    | obj =>
      cases hfields
      rw [List.flatten_cons, List.mem_append]
      constructor
      · rintro (hmem | hmem)
        · obtain ⟨field, hfield, rfl⟩ := List.mem_map.mp hmem
          exact ⟨0, field.1, fields, rfl, hfield⟩
        · obtain ⟨index, name, fields', hget, hmem⟩ := ih.mp hmem
          exact ⟨index + 1, name, fields', hget, hmem⟩
      · rintro ⟨index, name, fields', hget, hmem⟩
        cases index with
        | zero =>
          cases hget
          exact Or.inl (List.mem_map.mpr ⟨_, hmem, rfl⟩)
        | succ index => exact Or.inr (ih.mpr ⟨index, name, fields', hget, hmem⟩)
    | _ => cases hfields

theorem mem_itemDefinitions {list : Option Json} {definitions : List Json}
    (h : itemDefinitions (list.getD (.arr [])) = .ok definitions) :
    inner ∈ definitions ↔ ∃ index name, ListHas list index name inner := by
  simp only [itemDefinitions, except_bind_eq_ok] at h
  obtain ⟨items, hitems, found, hfound, h⟩ := h
  cases h
  rw [mem_entries hfound]
  constructor
  · rintro ⟨index, name, fields, hget, hmem⟩
    cases list with
    | none =>
      cases hitems
      cases hget
    | some list =>
      cases list with
      | arr =>
        cases hitems
        exact ⟨index, name, items, fields, rfl, hget, hmem⟩
      | obj _ | str _ =>
        -- the keys of a mapping and the characters of a text are texts
        cases hitems
        simp only [List.getElem?_map, Option.map_eq_some_iff] at hget
        obtain ⟨_, -, hget⟩ := hget
        cases hget
      | _ => cases hitems
  · rintro ⟨index, name, items', fields, rfl, hget, hmem⟩
    cases hitems
    exact ⟨index, name, fields, hget, hmem⟩

variable {name : String}

theorem getOr_eq_ok {default found : Json} (h : value.getOr name default = .ok found) :
    found = (value.field? name).getD default := by
  cases value with
  | obj =>
    cases h
    rfl
  | _ => cases h

/-- The field of an optional mapping. -/
theorem getOr_getD_eq_ok {value : Option Json} {found : Json}
    (h : (value.getD (.obj [])).getOr name (.arr []) = .ok found) :
    found = (value.bind (Json.field? name)).getD (.arr []) := by
  rw [getOr_eq_ok h]
  cases value with
  | none => rfl
  | some => rfl

theorem iteratorTasks_eq_ok {found : Json} (h : iteratorTasks value = .ok found) :
    found = ((iteratorOf value).bind (Json.field? "do")).getD (.arr []) := by
  unfold iteratorTasks at h
  unfold iteratorOf
  cases hlisten : value.field? "listen" with
  | none =>
    simp only [hlisten] at h
    cases h
    rfl
  | some =>
    cases hforeach : value.field? "foreach" with
    | none =>
      simp only [hlisten, hforeach] at h
      cases h
      rfl
    | some iterator =>
      simp only [hlisten, hforeach] at h
      cases iterator with
      | obj => exact getOr_eq_ok h
      | _ =>
        cases h
        rfl

theorem mem_nestedDefinitions {nested : List Json} (h : nestedDefinitions value = .ok nested) :
    inner ∈ nested ↔ ∃ place index name, HasTask value place index name inner := by
  simp only [nestedDefinitions, except_bind_eq_ok] at h
  obtain ⟨sequence, hsequence, inSequence, hinSequence, attempt, hattempt, inAttempt, hinAttempt,
    iterator, hiterator, inIterator, hinIterator, clause, hclause, handler, hhandler, inHandler,
    hinHandler, fork, hfork, branches, hbranches, inBranches, hinBranches, h⟩ := h
  cases h
  rw [getOr_eq_ok hsequence] at hinSequence
  rw [getOr_eq_ok hattempt] at hinAttempt
  rw [iteratorTasks_eq_ok hiterator] at hinIterator
  rw [getOr_eq_ok hclause] at hhandler
  rw [getOr_getD_eq_ok hhandler] at hinHandler
  rw [getOr_eq_ok hfork] at hbranches
  rw [getOr_getD_eq_ok hbranches] at hinBranches
  simp only [List.mem_append, mem_itemDefinitions hinSequence, mem_itemDefinitions hinAttempt,
    mem_itemDefinitions hinIterator, mem_itemDefinitions hinHandler,
    mem_itemDefinitions hinBranches]
  constructor
  · rintro ((((h | h) | h) | h) | h)
    · exact ⟨.sequence, h⟩
    · exact ⟨.attempt, h⟩
    · exact ⟨.iterator, h⟩
    · exact ⟨.handler, h⟩
    · exact ⟨.branches, h⟩
  · rintro ⟨place, h⟩
    cases place with
    | sequence => exact Or.inl (Or.inl (Or.inl (Or.inl h)))
    | attempt => exact Or.inl (Or.inl (Or.inl (Or.inr h)))
    | iterator => exact Or.inl (Or.inl (Or.inr h))
    | handler => exact Or.inl (Or.inr h)
    | branches => exact Or.inr h

variable {functions : Json}

theorem mem_ownCall : name ∈ ownCall functions value ↔
      value.field? "call" = some (.str name) ∧ (functions.field? name).isSome := by
  unfold ownCall
  cases hcall : value.field? "call" with
  | none => simp
  | some called =>
    cases called with
    | str text =>
      by_cases htext : (functions.field? text).isSome
      · simp only [htext, if_true, List.mem_singleton, Option.some.injEq, Json.str.injEq]
        constructor
        · rintro rfl
          exact ⟨rfl, htext⟩
        · exact fun h => h.1.symm
      · simp only [htext, Bool.false_eq_true, if_false, List.not_mem_nil, Option.some.injEq,
          Json.str.injEq, false_iff, not_and]
        rintro rfl
        exact htext
    | _ => simp

theorem mem_calls {found : List String} (h : calls functions depth value = .ok found) :
    name ∈ found ↔ CallsFrom functions value name := by
  induction depth generalizing value found with
  | zero => cases h
  | succ _ ih =>
    cases value with
    | obj =>
      simp only [calls, except_bind_eq_ok] at h
      obtain ⟨nested, hnested, lists, hlists, h⟩ := h
      cases h
      have hall := forall₂_of_mapM hlists
      rw [List.mem_append, mem_ownCall]
      constructor
      · rintro (⟨hcall, hname⟩ | hmem)
        · exact .own hcall hname
        · obtain ⟨list, hlist, hmem⟩ := List.mem_flatten.mp hmem
          obtain ⟨i, hi, rfl⟩ := List.mem_iff_getElem.mp hlist
          have hi' : i < nested.length := hall.length_eq ▸ hi
          obtain ⟨place, index, task, htask⟩ :=
            (mem_nestedDefinitions hnested).mp (List.getElem_mem hi')
          exact .nested htask ((ih (hall.get hi' hi)).mp hmem)
      · intro hcalls
        cases hcalls with
        | own hcall hname => exact Or.inl ⟨hcall, hname⟩
        | @nested _ inner place index task _ htask hcalls =>
          have hinner := (mem_nestedDefinitions hnested).mpr ⟨place, index, task, htask⟩
          obtain ⟨i, hi, rfl⟩ := List.mem_iff_getElem.mp hinner
          have hi' : i < lists.length := hall.length_eq ▸ hi
          exact Or.inr (List.mem_flatten.mpr ⟨lists[i], List.getElem_mem hi',
            (ih (hall.get hi hi')).mpr hcalls⟩)
    | _ =>
      -- what is not a mapping has no call and no place for tasks
      cases h
      simp only [List.not_mem_nil, false_iff]
      intro hcalls
      cases hcalls with
      | own hcall => cases hcall
      | @nested _ _ place _ _ _ htask _ =>
        obtain ⟨_, _, hvalue, -⟩ := htask
        cases place <;> cases hvalue

/-! ## The call graph is the same after resolution -/

theorem isSome_of_rel {α β : Type} {r : α → β → Prop} {x : Option α} {y : Option β}
    (h : Option.Rel r x y) : x.isSome = y.isSome := by
  cases h <;> rfl

theorem Resolves.callsFrom {use functions' d d' : Json}
    (hnames : ∀ name, (functions.field? name).isSome = (functions'.field? name).isSome)
    (h : Resolves use d d') (hcalls : CallsFrom functions d name) :
    CallsFrom functions' d' name := by
  induction hcalls generalizing d' with
  | own hcall hname =>
    exact .own ((h.fields.2 "call" (by decide)).trans hcall) ((hnames _).symm.trans hname)
  | nested htask _ ih =>
    obtain ⟨inner', htask', hinner⟩ := h.hasTask htask
    exact .nested htask' (ih hinner)

theorem Resolves.callsFrom_of_resolved {use functions' d d' : Json}
    (hnames : ∀ name, (functions.field? name).isSome = (functions'.field? name).isSome)
    (h : Resolves use d d') (hcalls : CallsFrom functions' d' name) :
    CallsFrom functions d name := by
  induction hcalls generalizing d with
  | own hcall hname =>
    exact .own ((h.fields.2 "call" (by decide)).symm.trans hcall) ((hnames _).trans hname)
  | nested htask' _ ih =>
    obtain ⟨inner, htask, hinner⟩ := h.hasTask_of_resolved htask'
    exact .nested htask (ih hinner)

variable {resolved : Json}

theorem WorkflowResolves.calls (h : WorkflowResolves workflow resolved) :
    Calls resolved = Calls workflow := by
  have hnames : ∀ name, ((functionsOf workflow).field? name).isSome =
      ((functionsOf resolved).field? name).isSome := fun name => isSome_of_rel (h.functions name)
  funext caller callee
  have hrel := h.functions caller
  refine propext ⟨?_, ?_⟩
  · rintro ⟨d', hd', hcalls⟩
    rw [hd'] at hrel
    obtain ⟨d, hd, hresolves⟩ := rel_some_right hrel
    exact ⟨d, hd, hresolves.callsFrom_of_resolved hnames hcalls⟩
  · rintro ⟨d, hd, hcalls⟩
    rw [hd] at hrel
    obtain ⟨d', hd', hresolves⟩ := rel_some_left hrel
    exact ⟨d', hd', hresolves.callsFrom hnames hcalls⟩

/-! ## The search of the chains -/

variable {found : List (String × List String)}

theorem lookup_of_forall₂ {r : Json → List String → Prop} {fields : List (String × Json)}
    (h : List.Forall₂ (fun field entry => field.1 = entry.1 ∧ r field.2 entry.2) fields found)
    (name : String) : Option.Rel r (Json.field? name (.obj fields)) (found.lookup name) := by
  unfold Json.field?
  induction h with
  | nil => exact .none
  | @cons field entry fields found hfield _ ih =>
    by_cases hname : field.1 = name
    · simp only [List.find?_cons, hname, decide_true, Option.map_some]
      rw [List.lookup_cons, ← hfield.1, hname, beq_self_eq_true]
      exact .some hfield.2
    · simp only [List.find?_cons, hname, decide_false]
      rw [List.lookup_cons, ← hfield.1, beq_false_of_ne (Ne.symm hname)]
      exact ih

theorem dependencies_eq_ok (h : dependencies functions depth = .ok found) (name : String) :
    Option.Rel (fun d names => calls functions depth d = .ok names) (functions.field? name)
      (found.lookup name) := by
  unfold dependencies at h
  obtain ⟨fields, hfields, hfound⟩ := except_bind_eq_ok.mp h
  have hall : List.Forall₂ (fun field entry => field.1 = entry.1 ∧
      calls functions depth field.2 = .ok entry.2) fields found := by
    refine (forall₂_of_mapM hfound).imp fun field entry hentry => ?_
    obtain ⟨names, hnames, hentry⟩ := except_bind_eq_ok.mp hentry
    cases hentry
    exact ⟨rfl, hnames⟩
  cases functions with
  | obj =>
    cases hfields
    exact lookup_of_forall₂ hall name
  | _ => cases hfields

variable {order : SetOrder}

/-- The successors in the search are the callees, whatever order the sets have. -/
theorem mem_successors (h : dependencies (functionsOf workflow) depth = .ok found)
    {caller callee : String} :
    callee ∈ successors order found caller ↔ Calls workflow caller callee := by
  unfold successors Calls
  rw [order.mem_list]
  have hrel := dependencies_eq_ok h caller
  cases hfunction : (functionsOf workflow).field? caller with
  | none =>
    rw [hfunction] at hrel
    cases hfound : found.lookup caller with
    | none => simp
    | some =>
      rw [hfound] at hrel
      cases hrel
  | some =>
    rw [hfunction] at hrel
    obtain ⟨names, hfound, hcalls⟩ := rel_some_left hrel
    rw [hfound, Option.getD_some, mem_calls hcalls]
    simp

theorem mem_names_of_successors (h : successors order found name ≠ []) :
    name ∈ found.map Prod.fst := by
  obtain ⟨callee, hcallee⟩ := List.exists_mem_of_ne_nil _ h
  unfold successors at hcallee
  rw [order.mem_list] at hcallee
  cases hfound : found.lookup name with
  | none =>
    rw [hfound] at hcallee
    cases hcallee
  | some =>
    obtain ⟨before, after, rfl, -⟩ := List.lookup_eq_some_iff.mp hfound
    simp

/-- An error of the check of the chains of calls. -/
def ChainError (e : OwaError) : Prop := ∃ name, e = recursiveError name ∨ e = depthError name

/-- Resolution refuses the chains of calls of a workflow: all named components are there, and the
search raises. -/
def RefusesChains (order : SetOrder) (depth : ℕ) (workflow : Json) : Prop :=
  ∃ e, resolveReusableComponents order depth workflow = .error e ∧ ChainError e

/-- Once the definitions of a workflow are read, only the search decides. -/
theorem resolveReusableComponents_eq (hresolved : resolveComponents depth workflow = .ok resolved)
    (hfound : dependencies (functionsOf resolved) depth = .ok found) :
    resolveReusableComponents order depth workflow =
      ((visitFunctions order found).answer ∅ >>= fun _ => .ok resolved) := by
  unfold resolveReusableComponents checkChains
  rw [hresolved]
  show ((dependencies (functionsOf resolved) depth >>= _) >>= _) = _
  rw [hfound]
  rfl

theorem visitFunctions_ends (order : SetOrder) (found : List (String × List String)) :
    Ends (visitFunctions order found) ∅
      (fun _ _ => ∀ name ∈ found.map Prod.fst, ∃ h,
        DepthSearch.IsHeight (DepthSearch.Edge (successors order found)) name h ∧ h ≤ chainLimit)
      (DepthSearch.Refuses chainLimit (successors order found) recursiveError depthError) :=
  DepthSearch.visitAll_ends fun _ _ hlookup => by cases hlookup

theorem chainError_of_run {e : OwaError} (h : (visitFunctions order found).run ∅ = .error e) :
    ChainError e := by
  cases (visitFunctions_ends order found).of_error h with
  | cycle name => exact ⟨name, Or.inl rfl⟩
  | deep name => exact ⟨name, Or.inr rfl⟩

/-- **The check is exact.**  Where the definitions of a workflow can be read, resolution refuses its
chains of calls exactly when the call graph has a cycle or a chain of more than 32 functions; the
order of the dictionaries does not matter. -/
theorem refusesChains_iff (hresolved : resolveComponents depth workflow = .ok resolved)
    (hfound : dependencies (functionsOf resolved) depth = .ok found) :
    RefusesChains order depth workflow ↔ DepthSearch.Deep chainLimit (Calls workflow) := by
  have hgraph : DepthSearch.Edge (successors order found) = Calls workflow := by
    rw [← (resolveComponents_eq_ok hresolved).calls]
    funext caller callee
    exact propext (mem_successors hfound)
  have hiff : (∃ e, (visitFunctions order found).run ∅ = .error e) ↔
      DepthSearch.Deep chainLimit (Calls workflow) := by
    rw [← hgraph]
    exact DepthSearch.visitAll_refuses_iff (by decide) fun name => mem_names_of_successors
  rw [← hiff]
  unfold RefusesChains
  rw [resolveReusableComponents_eq hresolved hfound]
  constructor
  · rintro ⟨e, he, -⟩
    cases hrun : (visitFunctions order found).run ∅ with
    | error e' => exact ⟨e', rfl⟩
    | ok =>
      rw [Transaction.answer, hrun] at he
      cases he
  · rintro ⟨e, he⟩
    exact ⟨e, by rw [Transaction.answer, he]; rfl, chainError_of_run he⟩

end Definitions

/-! ## The check of the planner -/

namespace WorkflowPlan

open Definitions

/-- An imported function: it makes a protocol call, and neither holds other tasks nor calls a
function of the workflow. -/
def ProtocolCall (functions definition : Json) : Prop :=
  taskScopes definition = [] ∧
    ∀ name, definition.field? "call" = some (.str name) → functions.field? name = none

/-- A definition that the planner meets while it expands the functions of a stack: a task of the
workflow that calls only what the last function calls, or an imported function. -/
def Sound (workflow : Json) (stack : List String) (definition : Json) : Prop :=
  ((∃ pointer name, SourceTask workflow pointer name definition) ∧
    ∀ callee, CallsFrom (functionsOf workflow) definition callee →
      ∀ caller ∈ stack.getLast?, Calls workflow caller callee) ∨
  ProtocolCall (functionsOf workflow) definition

/-- A call of `scope` on the way through a workflow: its stack is a chain of calls. -/
structure Tracked (workflow : Json) (call : ScopeCall) : Prop where
  chain : call.stack.IsChain (Calls workflow)
  sound : ∀ item ∈ call.items, ∀ name definition, item = .obj [(name, definition)] →
    Sound workflow call.stack definition

variable {definition workflow : Json}

section Expansion

variable {imports : List (String × Json)} {call : ScopeCall}

theorem tracked_nestedCall
    (hplain : ∀ pointer name d, SourceTask workflow pointer name d → PlainBranches d)
    (hcall : Tracked workflow call) (hsound : Sound workflow call.stack definition)
    {nested : NestedScope} (hnested : nested ∈ taskScopes definition) (index : ℕ) (name : String) :
    Tracked workflow (nestedCall call index name nested) where
  chain := hcall.chain
  sound := by
    intro item hitem name inner hinner
    rw [hinner] at hitem
    obtain ⟨position, hposition⟩ := List.mem_iff_getElem?.mp hitem
    rcases hsound with ⟨⟨pointer, parent, htask⟩, hcalls⟩ | ⟨hnone, -⟩
    · obtain ⟨place, index, hhas, -⟩ :=
        hasTask_of_mem_taskScopes (hplain pointer parent definition htask) hnested hposition
      exact Or.inl ⟨⟨_, name, .nested htask hhas⟩,
        fun callee hcallee => hcalls callee (.nested hhas hcallee)⟩
    · rw [hnone] at hnested
      cases hnested

/-- A stack of calls and one more. -/
theorem isChain_concat {stack : List String} (hchain : stack.IsChain (Calls workflow))
    {callee : String} (hcallee : ∀ caller ∈ stack.getLast?, Calls workflow caller callee) :
    (stack ++ [callee]).IsChain (Calls workflow) :=
  hchain.append (List.isChain_singleton callee) fun caller hcaller _ hhead => by
    cases hhead
    exact hcallee caller hcaller

/-- The body of a function that a sound definition calls is tracked, and the call is not
recursive. -/
theorem calledScope_tracked (hdeep : ¬ DepthSearch.Deep chainLimit (Calls workflow))
    (himports : ∀ name body, imports.lookup name = some body →
      ProtocolCall (functionsOf workflow) body) (hcall : Tracked workflow call)
    (hsound : Sound workflow call.stack definition) (index : ℕ) (name : String) :
    ∃ called, calledScope ⟨functionsOf workflow, imports⟩ call index name definition
      = .ok called ∧ ∀ child ∈ called, Tracked workflow child := by
  unfold calledScope
  cases hfield : definition.field? "call" with
  | none => exact ⟨[], rfl, by simp⟩
  | some value =>
    cases value with
    | str callee =>
      simp only
      cases hfunction : (functionsOf workflow).field? callee with
      | some body =>
        -- an imported function calls no function of the workflow
        have hcalls : ∀ caller ∈ call.stack.getLast?, Calls workflow caller callee := by
          rcases hsound with ⟨-, hcalls⟩ | ⟨-, hnone⟩
          · exact hcalls callee (.own hfield (by rw [hfunction]; rfl))
          · rw [hnone callee hfield] at hfunction
            cases hfunction
        have hchain := isChain_concat hcall.chain hcalls
        have hfresh : ¬ (callee ∈ call.stack ∨ chainLimit ≤ call.stack.length) := by
          rintro (hmem | hlong)
          · exact hdeep (Or.inl ⟨callee, DepthSearch.cycle_of_mem_stack hchain hmem⟩)
          · refine hdeep (DepthSearch.deep_of_isChain hchain ?_)
            rw [List.length_append, List.length_singleton]
            omega
        refine ⟨_, except_bind_eq_ok.mpr ⟨(), except_raiseIf_eq_ok.mpr hfresh, rfl⟩, ?_⟩
        intro child hchild
        rw [List.mem_singleton] at hchild
        rw [hchild]
        refine ⟨hchain, fun item hitem name' body' hbody => ?_⟩
        rw [List.mem_singleton] at hitem
        rw [hitem] at hbody
        cases hbody
        refine Or.inl ⟨⟨_, _, .function hfunction⟩, fun inner hinner caller hcaller => ?_⟩
        simp only [List.getLast?_concat, Option.mem_def, Option.some.injEq] at hcaller
        exact ⟨body, hcaller ▸ hfunction, hinner⟩
      | none =>
        cases himport : imports.lookup callee with
        | none => exact ⟨[], rfl, by simp⟩
        | some body =>
          refine ⟨_, rfl, ?_⟩
          intro child hchild
          rw [List.mem_singleton] at hchild
          rw [hchild]
          refine ⟨hcall.chain, fun item hitem name' body' hbody => ?_⟩
          rw [List.mem_singleton] at hitem
          rw [hitem] at hbody
          cases hbody
          exact Or.inr (himports callee body himport)
    | _ => exact ⟨[], rfl, by simp⟩

/-- An error without details is not that of a recursive reference. -/
theorem plain_ne_recursiveReference {kind : ErrorKind} {message : String} {reference : Pointer} :
    OwaError.plain kind message ≠ recursiveReference reference := by
  intro h
  have hdetails := congrArg OwaError.details h
  cases hdetails

/-- The items of a tracked scope have tracked scopes below them, and no recursive references. -/
theorem planItem_tracked (hdeep : ¬ DepthSearch.Deep chainLimit (Calls workflow))
    (hplain : ∀ pointer name d, SourceTask workflow pointer name d → PlainBranches d)
    (himports : ∀ name body, imports.lookup name = some body →
      ProtocolCall (functionsOf workflow) body)
    (hcall : Tracked workflow call) {item : Json} (hitem : item ∈ call.items) (index : ℕ) :
    (∀ planned, planItem ⟨functionsOf workflow, imports⟩ call index item = .ok planned →
      ∀ child ∈ planned.children, Tracked workflow child) ∧
    ∀ reference, planItem ⟨functionsOf workflow, imports⟩ call index item ≠
      .error (recursiveReference reference) := by
  unfold planItem
  split
  · rename_i name fields
    have hsound := hcall.sound _ hitem name _ rfl
    unfold planTask
    obtain ⟨called, hcalled, htracked⟩ := calledScope_tracked hdeep himports hcall hsound index name
    rw [hcalled]
    constructor
    · intro planned hplanned child hchild
      cases hplanned
      rcases List.mem_append.mp hchild with hchild | hchild
      · obtain ⟨nested, hnested, rfl⟩ := List.mem_map.mp hchild
        exact tracked_nestedCall hplain hcall hsound hnested _ _
      · exact htracked child hchild
    · exact fun reference h => by cases h
  · refine ⟨fun planned h => (by cases h), fun reference h => ?_⟩
    exact plain_ne_recursiveReference (Except.error.inj h)
  · refine ⟨fun planned h => (by cases h), fun reference h => ?_⟩
    exact plain_ne_recursiveReference (Except.error.inj h)

theorem exists_of_mapM_error {α β ε : Type} {f : α → Except ε β} {l : List α} {e : ε}
    (h : l.mapM f = .error e) : ∃ a ∈ l, f a = .error e := by
  induction l with
  | nil => cases h
  | cons a l ih =>
    cases ha : f a with
    | error =>
      simp only [List.mapM_cons, ha] at h
      cases h
      exact ⟨a, List.mem_cons_self, ha⟩
    | ok =>
      cases hl : l.mapM f with
      | error =>
        simp only [List.mapM_cons, ha, hl] at h
        cases h
        obtain ⟨c, hc, hce⟩ := ih hl
        exact ⟨c, List.mem_cons_of_mem _ hc, hce⟩
      | ok =>
        simp only [List.mapM_cons, ha, hl] at h
        cases h

/-- The planner never raises the error of a recursive reference on a tracked scope. -/
theorem scope_tracked (hdeep : ¬ DepthSearch.Deep chainLimit (Calls workflow))
    (hplain : ∀ pointer name d, SourceTask workflow pointer name d → PlainBranches d)
    (himports : ∀ name body, imports.lookup name = some body →
      ProtocolCall (functionsOf workflow) body)
    (depth : ℕ) (hcall : Tracked workflow call) (scopes : List ScopePlan) :
    Ends (scope ⟨functionsOf workflow, imports⟩ depth call) scopes (fun _ _ => True)
      fun e => ∀ reference, e ≠ recursiveReference reference := by
  induction depth generalizing call scopes with
  | zero => exact ends_throw fun reference => plain_ne_recursiveReference
  | succ _ ih =>
    have hitems := fun (item : Json × ℕ) (hitem : item ∈ call.items.zipIdx) =>
      planItem_tracked hdeep hplain himports hcall (List.fst_mem_of_mem_zipIdx hitem) item.2
    refine Ends.bind (P := fun planned _ => ∀ child ∈ planned.flatMap PlannedItem.children,
      Tracked workflow child) (ends_orRaiseError ?_ ?_) fun planned _ hchildren => ?_
    · intro planned hplanned child hchild
      obtain ⟨entry, hentry, hchild⟩ := List.mem_flatMap.mp hchild
      obtain ⟨i, hi, rfl⟩ := List.mem_iff_getElem.mp hentry
      have hall := forall₂_of_mapM hplanned
      have hi' : i < call.items.zipIdx.length := hall.length_eq ▸ hi
      exact (hitems _ (List.getElem_mem hi')).1 _ (hall.get hi' hi) child hchild
    · rintro e he reference rfl
      obtain ⟨item, hitem, herror⟩ := exists_of_mapM_error he
      exact (hitems item hitem).2 reference herror
    · refine Ends.bind (P := fun _ _ => True) (ends_write trivial) fun _ _ _ => ?_
      refine Ends.bind (P := fun _ _ => True) (ends_read trivial) fun _ _ _ => ?_
      refine Ends.bind (P := fun _ _ => True) (ends_raiseIf ?_ fun _ => trivial) fun _ _ _ => ?_
      · exact fun _ reference => plain_ne_recursiveReference
      · exact ends_forM fun child hchild s => ih (hchildren child hchild) s

end Expansion

/-- A workflow whose chains of calls are accepted, in one order of the sets, is accepted in every
order. -/
theorem resolveReusableComponents_eq_ok {order : SetOrder} {depth : ℕ} {effective : Json}
    (h : resolveReusableComponents order depth workflow = .ok effective) :
    resolveComponents depth workflow = .ok effective ∧
      ¬ DepthSearch.Deep chainLimit (Calls workflow) ∧
      ∀ order', resolveReusableComponents order' depth workflow = .ok effective := by
  have hbody := h
  unfold resolveReusableComponents at hbody
  obtain ⟨resolved, hresolved, hbody⟩ := except_bind_eq_ok.mp hbody
  obtain ⟨_, hchains, hbody⟩ := except_bind_eq_ok.mp hbody
  cases hbody
  unfold checkChains at hchains
  obtain ⟨found, hfound, -⟩ := except_bind_eq_ok.mp hchains
  have hdeep : ¬ DepthSearch.Deep chainLimit (Calls workflow) := by
    rw [← refusesChains_iff hresolved hfound]
    rintro ⟨e, he, -⟩
    rw [h] at he
    cases he
  refine ⟨hresolved, hdeep, fun order' => ?_⟩
  rw [resolveReusableComponents_eq hresolved hfound]
  cases hrun : (visitFunctions order' found).run ∅ with
  | ok =>
    rw [Transaction.answer, hrun]
    rfl
  | error e =>
    -- an error of the search would be an error of the check
    have hrefuses : RefusesChains order' depth workflow := by
      refine ⟨e, ?_, chainError_of_run hrun⟩
      rw [resolveReusableComponents_eq hresolved hfound, Transaction.answer, hrun]
      rfl
    exact absurd ((refusesChains_iff hresolved hfound).mp hrefuses) hdeep

/-- The items that the planner starts with are the tasks of the workflow. -/
theorem listHas_of_iterate {tasks : Json} {items : List Json} (hitems : tasks.iterate = .ok items)
    {index : ℕ} {name : String} (hget : items[index]? = some (.obj [(name, definition)])) :
    ListHas (some tasks) index name definition := by
  cases tasks with
  | arr =>
    cases hitems
    exact ⟨items, _, rfl, hget, List.mem_cons_self⟩
  | obj _ | str _ =>
    cases hitems
    simp only [List.getElem?_map, Option.map_eq_some_iff] at hget
    obtain ⟨_, -, hget⟩ := hget
    cases hget
  | _ => cases hitems

theorem rootCall_tracked {tasks : Json} {items : List Json}
    (htasks : workflow.field? "do" = some tasks) (hitems : tasks.iterate = .ok items) :
    Tracked workflow (rootCall items) where
  chain := List.isChain_nil
  sound := by
    rintro item hitem name definition rfl
    obtain ⟨index, hget⟩ := List.mem_iff_getElem?.mp hitem
    have hhas := listHas_of_iterate hitems hget
    rw [← htasks] at hhas
    exact Or.inl ⟨⟨_, name, .root hhas⟩, fun _ _ caller hcaller => by cases hcaller⟩

/-- The scopes of a workflow without a branch named `do` are planned without the error of a
recursive reference. -/
theorem planScopes_ne_recursive {effective : Json} {imports : List (String × Json)}
    (hresolves : WorkflowResolves workflow effective)
    (hdeep : ¬ DepthSearch.Deep chainLimit (Calls workflow)) (hdo : NoBranchNamedDo workflow)
    (himports : ∀ name body, imports.lookup name = some body →
      ProtocolCall (functionsOf workflow) body) (depth : ℕ) (reference : Pointer) :
    planScopes imports depth effective ≠ .error (recursiveReference reference) := by
  rw [← hresolves.calls] at hdeep
  have himports' : ∀ name body, imports.lookup name = some body →
      ProtocolCall (functionsOf effective) body := by
    intro name body hbody
    obtain ⟨hscopes, hcalls⟩ := himports name body hbody
    refine ⟨hscopes, fun callee hcallee => ?_⟩
    have hrel := hresolves.functions callee
    rw [hcalls callee hcallee] at hrel
    cases hfunction : (functionsOf effective).field? callee with
    | none => rfl
    | some =>
      rw [hfunction] at hrel
      cases hrel
  have hplain : ∀ pointer name d, SourceTask effective pointer name d → PlainBranches d :=
    fun _ _ _ hd => plainBranches_of_sourceTask hresolves hdo hd
  intro herror
  unfold planScopes at herror
  rcases except_bind_eq_error.mp herror with hnone | ⟨tasks, htasks, herror⟩
  · cases hfield : effective.field? "do" with
    | none =>
      rw [hfield] at hnone
      exact plain_ne_recursiveReference (Except.error.inj hnone)
    | some =>
      rw [hfield] at hnone
      cases hnone
  · rw [except_orRaise_eq_ok] at htasks
    rcases except_bind_eq_error.mp herror with hshape | ⟨items, hitems, herror⟩
    · cases tasks <;> cases hshape
    · rcases except_bind_eq_error.mp herror with hscope | ⟨planned, -, herror⟩
      · exact (scope_tracked hdeep hplain himports' depth (rootCall_tracked htasks hitems)
          []).of_error hscope reference rfl
      · cases herror

theorem raiseIf_ne_recursive {c : Prop} [Decidable c] {kind : ErrorKind} {message : String}
    {reference : Pointer} :
    (raiseIf c (OwaError.plain kind message) : Except OwaError Unit) ≠
      .error (recursiveReference reference) := by
  unfold raiseIf
  by_cases hc : c
  · rw [if_pos hc]
    exact fun h => plain_ne_recursiveReference (Except.error.inj h)
  · rw [if_neg hc]
    exact fun h => by cases h

def foundOrder : SetOrder := ⟨id, fun _ _ => Iff.rfl⟩

def noChecks : OtherChecks where
  jsonValue _ := .ok ()
  importedSources _ := .ok ()
  nativePolicies _ := .ok ()
  jsonValue_own _ _ h := by cases h
  importedSources_own _ _ h := by cases h
  nativePolicies_own _ _ h := by cases h

def sampleDocument : Json :=
  .obj [("dsl", .str "1.0.3"), ("namespace", .str "samples"), ("name", .str "sample"),
    ("version", .str "1.0.0")]

/-- A workflow of one call of a function that sets a value. -/
def greeting : Json :=
  .obj [("document", sampleDocument), ("do", .arr [.obj [("start", .obj [("call", .str "greet")])]]),
    ("use", .obj [("functions", .obj [("greet", .obj [("set", .obj [("text", .str "hello")])])])])]

/-- The task and the function of the greeting have no tasks nested in them. -/
theorem greeting_places {pointer : Pointer} {name : String} {d : Json}
    (h : SourceTask greeting pointer name d) (place : Place) : place.value d = none := by
  induction h generalizing place with
  | @root index name d hhas =>
    obtain ⟨items, fields, hitems, hget, hmem⟩ := hhas
    cases hitems
    cases index with
    | zero =>
      cases hget
      cases List.mem_singleton.mp hmem
      cases place <;> rfl
    | succ => cases hget
  | @function name d hfunction =>
    have hcases : Json.field? name (.obj [("greet", .obj [("set", .obj [("text", .str "hello")])])])
        = some d := hfunction
    by_cases hname : "greet" = name
    · simp only [Json.field?, List.find?_cons, hname, decide_true, Option.map_some,
        Option.some.injEq] at hcases
      rw [← hcases]
      cases place <;> rfl
    · simp [Json.field?, hname] at hcases
  | nested _ hhas ih =>
    obtain ⟨_, _, hvalue, -⟩ := hhas
    rw [ih] at hvalue
    cases hvalue

/-- A function whose one branch is named `do`.  The data that the branch sets looks like a call of
the function. -/
def loopInData : Json :=
  .obj [("document", sampleDocument), ("do", .arr [.obj [("start", .obj [("call", .str "loop")])]]),
    ("use", .obj [("functions", .obj [("loop", .obj [("fork", .obj [("branches",
      .arr [.obj [("do", .obj [("set", .obj [("call", .str "loop")])])]])])])])])]

end WorkflowPlan
