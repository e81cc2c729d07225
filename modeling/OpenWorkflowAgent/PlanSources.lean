/-
# Sources of planned tasks

Which tasks a plan has, and whether `definition_at_pointer` leads from the reference of a planned
task back to its definition.  `Planned` are the tasks that the planner finds, following
`_task_scopes` and the calls of functions; they are the tasks of the plan
(`mem_allTasks_iff_planned`).  `Reached` are the tasks of the workflow by position: its own, those
nested in a reached task, and the functions that a reached task calls.

The two agree unless a reached branch of a fork is a task named `do`.  The planner takes such a
branch for a body, and plans what is under `do` as the tasks of the branch.
-/
import OpenWorkflowAgent.DefinitionLookups
import OpenWorkflowAgent.PlanReferences

open Definitions

namespace WorkflowPlan

/-! ## Tasks that the planner finds -/

/-- The reference of a task of a scope nested in a definition. -/
def NestedScope.reference (nested : NestedScope) (pointer : Pointer) (position : ℕ)
    (name : String) : Pointer :=
  if nested.indexed then pointer ++ nested.suffix ++ [toString position, name]
  else pointer ++ nested.suffix ++ [name]

/-- The tasks that the planner finds, with their references in the source. -/
inductive Planned (functions : Json) (items : List Json) : Pointer → String → Json → Prop where
  | root {index : ℕ} {name : String} {d : Json} (h : items[index]? = some (.obj [(name, d)])) :
      Planned functions items ["do", toString index, name] name d
  | nested {pointer : Pointer} {parent : String} {d : Json} {nested : NestedScope}
      {position : ℕ} {name : String} {inner : Json}
      (hparent : Planned functions items pointer parent d) (hnested : nested ∈ taskScopes d)
      (h : nested.items[position]? = some (.obj [(name, inner)])) :
      Planned functions items (nested.reference pointer position name) name inner
  | called {pointer : Pointer} {parent : String} {d : Json} {callee : String} {body : Json}
      (hparent : Planned functions items pointer parent d)
      (hcall : d.field? "call" = some (.str callee)) (h : functions.field? callee = some body) :
      Planned functions items ["use", "functions", callee] callee body

def HasPlan (scopes : List ScopePlan) (pointer : Pointer) (name : String) (d : Json) : Prop :=
  ∃ task ∈ allTasks scopes, task.reference = pointer ∧ task.name = name ∧ task.definition = d

variable {depth index : ℕ} {items : List Json} {scopes : List ScopePlan}

section Plans

variable {functions : Json}

variable {pointer : Pointer} {name : String}

theorem hasPlan_cons_flatten {scope : ScopePlan} {below : List (List ScopePlan)} {d : Json} :
    HasPlan (scope :: below.flatten) pointer name d ↔
      (∃ task ∈ scope.tasks, task.reference = pointer ∧ task.name = name ∧ task.definition = d) ∨
        ∃ added ∈ below, HasPlan added pointer name d := by
  have hall : allTasks (scope :: below.flatten) = scope.tasks ++ (below.map allTasks).flatten := by
    rw [← allTasks_flatten]
    rfl
  unfold HasPlan
  rw [hall]
  constructor
  · rintro ⟨task, hmem, htask⟩
    rcases List.mem_append.mp hmem with hmem | hmem
    · exact Or.inl ⟨task, hmem, htask⟩
    · obtain ⟨_, hlist, hmem⟩ := List.mem_flatten.mp hmem
      obtain ⟨added, hadded, rfl⟩ := List.mem_map.mp hlist
      exact Or.inr ⟨added, hadded, task, hmem, htask⟩
  · rintro (⟨task, hmem, htask⟩ | ⟨added, hadded, task, hmem, htask⟩)
    · exact ⟨task, List.mem_append_left _ hmem, htask⟩
    · refine ⟨task, List.mem_append_right _ (List.mem_flatten.mpr ?_), htask⟩
      exact ⟨_, List.mem_map_of_mem hadded, hmem⟩

theorem exists_of_mem_forall₂_left {α β : Type} {r : α → β → Prop} {l : List α} {l' : List β}
    (h : List.Forall₂ r l l') {a : α} (ha : a ∈ l) : ∃ b ∈ l', r a b :=
  exists_of_mem_forall₂ h.flip ha

variable {call : ScopeCall} {added : List ScopePlan}

theorem Adds.own {callables : Callables} (h : Adds callables depth call added) {position : ℕ}
    {d : Json} (hitem : call.items[position]? = some (.obj [(name, d)])) :
    HasPlan added (call.sourceReference position name) name d := by
  cases depth with
  | zero => exact h.elim
  | succ =>
    obtain ⟨planned, below, hmap, -, rfl⟩ := h
    have hmem : (Json.obj [(name, d)], position) ∈ call.items.zipIdx :=
      List.mem_zipIdx_iff_getElem?.mpr hitem
    obtain ⟨p, hp, hplanned⟩ := exists_of_mem_forall₂_left (forall₂_of_mapM hmap) hmem
    obtain ⟨_, _, _, heq, -, rfl⟩ := planItem_eq_ok hplanned
    cases heq
    exact hasPlan_cons_flatten.mpr (Or.inl ⟨_, List.mem_map_of_mem hp, rfl, rfl, rfl⟩)

theorem sourceReference_nestedCall (call : ScopeCall) (index : ℕ) (parent : String)
    (nested : NestedScope) (position : ℕ) (name : String) :
    (nestedCall call index parent nested).sourceReference position name =
      nested.reference (call.sourceReference index parent) position name := rfl

theorem Adds.closed {callables : Callables} (h : Adds callables depth call added) {d : Json}
    (hd : HasPlan added pointer name d) :
    (∀ nested ∈ taskScopes d, ∀ (position : ℕ) (name' : String) (inner : Json),
      nested.items[position]? = some (.obj [(name', inner)]) →
      HasPlan added (nested.reference pointer position name') name' inner) ∧
    ∀ callee body, d.field? "call" = some (.str callee) →
      callables.functions.field? callee = some body →
      HasPlan added ["use", "functions", callee] callee body := by
  induction depth generalizing call added with
  | zero => exact h.elim
  | succ depth ih =>
    obtain ⟨planned, below, hmap, hbelow, rfl⟩ := h
    rcases hasPlan_cons_flatten.mp hd with ⟨task, htask, hpointer, hname, hdefinition⟩ |
      ⟨added, hadded, hd⟩
    · -- a task of the call itself: its children are called
      obtain ⟨p, hp, rfl⟩ := List.mem_map.mp htask
      obtain ⟨⟨item, index⟩, -, hplanned⟩ := exists_of_mem_forall₂ (forall₂_of_mapM hmap) hp
      obtain ⟨name, fields, called, -, hcalled, rfl⟩ := planItem_eq_ok hplanned
      subst hpointer hname hdefinition
      have hchild : ∀ child, child ∈ (taskScopes (.obj fields)).map (nestedCall call index name)
          ++ called → ∃ added ∈ below, Adds callables depth child added := fun child hchild =>
        exists_of_mem_forall₂_left hbelow (List.mem_flatMap.mpr ⟨_, hp, hchild⟩)
      constructor
      · intro nested hnested position name' inner hitem
        obtain ⟨added, hadded, hadds⟩ := hchild _
          (List.mem_append_left _ (List.mem_map_of_mem hnested))
        exact hasPlan_cons_flatten.mpr (Or.inr ⟨added, hadded, hadds.own hitem⟩)
      · intro callee body hcall hbody
        have hcall' : Json.field? "call" (.obj fields) = some (.str callee) := hcall
        simp only [calledScope, hcall', hbody, except_bind_eq_ok] at hcalled
        obtain ⟨_, -, hcalled⟩ := hcalled
        cases hcalled
        obtain ⟨added, hadded, hadds⟩ := hchild _
          (List.mem_append_right _ (List.mem_singleton.mpr rfl))
        refine hasPlan_cons_flatten.mpr (Or.inr ⟨added, hadded, ?_⟩)
        have hfirst : [Json.obj [(callee, body)]][0]? = some (.obj [(callee, body)]) := rfl
        exact hadds.own hfirst
    · obtain ⟨child, -, hadds⟩ := exists_of_mem_forall₂ hbelow hadded
      obtain ⟨hnested, hfunctions⟩ := ih hadds hd
      constructor
      · intro nested hmem position name' inner hitem
        exact hasPlan_cons_flatten.mpr
          (Or.inr ⟨added, hadded, hnested nested hmem position name' inner hitem⟩)
      · intro callee body hcall hbody
        exact hasPlan_cons_flatten.mpr
          (Or.inr ⟨added, hadded, hfunctions callee body hcall hbody⟩)

theorem Adds.planned (h : Adds ⟨functions, []⟩ depth call added)
    (hcall : ∀ (position : ℕ) (name : String) (d : Json),
      call.items[position]? = some (.obj [(name, d)]) →
      Planned functions items (call.sourceReference position name) name d) {d : Json}
    (hd : HasPlan added pointer name d) : Planned functions items pointer name d := by
  induction depth generalizing call added with
  | zero => exact h.elim
  | succ depth ih =>
    obtain ⟨planned, below, hmap, hbelow, rfl⟩ := h
    have hown : ∀ p ∈ planned, ∃ (index : ℕ) (name : String) (fields : List (String × Json))
        (called : List ScopeCall), call.items[index]? = some (.obj [(name, .obj fields)]) ∧
        calledScope ⟨functions, []⟩ call index name (.obj fields) = .ok called ∧
        p = ⟨call.plan index name (.obj fields),
          (taskScopes (.obj fields)).map (nestedCall call index name) ++ called⟩ := by
      intro p hp
      obtain ⟨⟨item, index⟩, hitem, hplanned⟩ := exists_of_mem_forall₂ (forall₂_of_mapM hmap) hp
      obtain ⟨name, fields, called, rfl, hcalled, rfl⟩ := planItem_eq_ok hplanned
      exact ⟨index, name, fields, called, List.mem_zipIdx_iff_getElem?.mp hitem, hcalled, rfl⟩
    rcases hasPlan_cons_flatten.mp hd with ⟨task, htask, hpointer, hname, hdefinition⟩ |
      ⟨added, hadded, hd⟩
    · obtain ⟨p, hp, rfl⟩ := List.mem_map.mp htask
      obtain ⟨index, name, fields, _, hitem, -, rfl⟩ := hown p hp
      subst hpointer hname hdefinition
      exact hcall index name _ hitem
    · obtain ⟨child, hchild, hadds⟩ := exists_of_mem_forall₂ hbelow hadded
      refine ih hadds ?_ hd
      obtain ⟨p, hp, hchild⟩ := List.mem_flatMap.mp hchild
      obtain ⟨index, parent, fields, called, hitem, hcalled, rfl⟩ := hown p hp
      have hparent := hcall index parent _ hitem
      rcases List.mem_append.mp hchild with hchild | hchild
      · obtain ⟨nested, hnested, rfl⟩ := List.mem_map.mp hchild
        intro position name inner hinner
        rw [sourceReference_nestedCall]
        exact .nested hparent hnested hinner
      · intro position name inner hinner
        unfold calledScope at hcalled
        split at hcalled
        · rename_i hcallee
          split at hcalled
          · rename_i hbody
            obtain ⟨_, -, hcalled⟩ := except_bind_eq_ok.mp hcalled
            cases hcalled
            cases List.mem_singleton.mp hchild
            cases position with
            | zero =>
              cases hinner
              exact .called hparent hcallee hbody
            | succ => cases hinner
          · rename_i hnone
            cases hnone
          · cases hcalled
            cases hchild
        · cases hcalled
          cases hchild

/-- The tasks of a plan without imports are those that the planner finds. -/
theorem hasPlan_iff_planned (h : Adds ⟨functions, []⟩ depth (rootCall items) scopes) {d : Json} :
    HasPlan scopes pointer name d ↔ Planned functions items pointer name d := by
  constructor
  · exact fun hd => h.planned (fun position name d hitem => .root hitem) hd
  · intro hplanned
    induction hplanned with
    | root hitem => exact h.own hitem
    | nested _ hnested hitem ih => exact (h.closed ih).1 _ hnested _ _ _ hitem
    | called _ hcall hbody ih => exact (h.closed ih).2 _ _ hcall hbody

end Plans

/-! ## Tasks of the workflow -/

/-- The tasks of a workflow that a run can come to, by position: its own, those nested in such a
task, and the functions that such a task calls. -/
inductive Reached (workflow : Json) : Pointer → String → Json → Prop where
  | root {index : ℕ} {name : String} {d : Json}
      (h : ListHas (workflow.field? "do") index name d) :
      Reached workflow ["do", toString index, name] name d
  | nested {pointer : Pointer} {parent : String} {d : Json} {place : Place} {index : ℕ}
      {name : String} {inner : Json} (hparent : Reached workflow pointer parent d)
      (h : HasTask d place index name inner) :
      Reached workflow (pointer ++ place.suffix ++ [toString index, name]) name inner
  | called {pointer : Pointer} {parent : String} {d : Json} {callee : String} {body : Json}
      (hparent : Reached workflow pointer parent d)
      (hcall : d.field? "call" = some (.str callee))
      (h : (functionsOf workflow).field? callee = some body) :
      Reached workflow ["use", "functions", callee] callee body

theorem Reached.sourceTask {workflow : Json} {pointer : Pointer} {name : String} {d : Json}
    (h : Reached workflow pointer name d) : SourceTask workflow pointer name d := by
  induction h with
  | root h => exact .root h
  | nested _ h ih => exact .nested ih h
  | called _ _ h => exact .function h

/-- No reached branch of a fork is a task named `do`. -/
def NoReachedBranchNamedDo (workflow : Json) : Prop :=
  ∀ pointer parent d index inner, Reached workflow pointer parent d →
    ¬ HasTask d .branches index "do" inner

/-- Every function of the workflow is called by a reached task. -/
def EveryFunctionReached (workflow : Json) : Prop :=
  ∀ name body, (functionsOf workflow).field? name = some body →
    Reached workflow ["use", "functions", name] name body

/-! ## Reached tasks and planned tasks -/

theorem taskListShaped_of_resolves {use list list' : Json} (h : TaskListShaped list)
    (hresolves : ListResolves use list list') : TaskListShaped list' := by
  obtain ⟨items, rfl, hitems⟩ := h
  obtain ⟨items', rfl, hall⟩ := hresolves.items
  refine ⟨items', rfl, fun item' hitem' => ?_⟩
  obtain ⟨item, hitem, fields, fields', rfl, rfl, hfields⟩ := exists_of_mem_forall₂ hall hitem'
  obtain ⟨name, _, hone⟩ := hitems _ hitem
  cases hone
  cases hfields with
  | @cons _ field' _ _ hfield hrest =>
    cases hrest
    obtain ⟨inner', hinner'⟩ := hfield.2.fields.1
    exact ⟨field'.1, inner', by rw [← hinner']⟩

/-- The scopes of the places of a definition are among those that the planner finds. -/
theorem mem_taskScopes_of_place {d : Json} {place : Place} (hplace : place ≠ .branches)
    (h : place.value d = some (.arr items)) : ⟨place.suffix, items, true⟩ ∈ taskScopes d := by
  simp only [taskScopes, List.mem_append]
  cases place with
  | sequence =>
    have hvalue : d.field? "do" = some (.arr items) := h
    simp [hvalue, listAt, Place.suffix]
  | attempt =>
    have hvalue : d.field? "try" = some (.arr items) := h
    simp [hvalue, listAt, Place.suffix]
  | handler =>
    have hvalue : (d.field? "catch").bind (Json.field? "do") = some (.arr items) := h
    simp [hvalue, listAt, Place.suffix]
  | iterator =>
    have hvalue : (iteratorOf d).bind (Json.field? "do") = some (.arr items) := h
    simp [hvalue, listAt, Place.suffix]
  | branches => exact absurd rfl hplace

theorem mem_taskScopes_of_branch {d : Json} {branches : List Json} {branch : Json}
    (h : Place.branches.value d = some (.arr branches)) (hbranch : branches[index]? = some branch) :
    ⟨["fork", "branches", toString index], taskBody branch, false⟩ ∈ taskScopes d := by
  have hvalue : (d.field? "fork").bind (Json.field? "branches") = some (.arr branches) := h
  refine List.mem_append_right _ ?_
  rw [hvalue]
  exact List.mem_map.mpr ⟨(branch, index), List.mem_zipIdx_iff_getElem?.mpr hbranch, rfl⟩

section Resolved

variable {workflow effective tasks : Json}

variable {name : String}

/-- A task of a definition without a branch named `do` is found by the planner. -/
theorem exists_nested_of_hasTask {d : Json} {place : Place} {list : Json}
    (hlist : place.value d = some list) (hshaped : TaskListShaped list) {inner : Json}
    (h : HasTask d place index name inner) (hdo : place = .branches → name ≠ "do") :
    ∃ nested ∈ taskScopes d, ∃ position : ℕ,
      nested.items[position]? = some (.obj [(name, inner)]) ∧
      ∀ pointer, nested.reference pointer position name =
        pointer ++ place.suffix ++ [toString index, name] := by
  unfold HasTask at h
  rw [hlist] at h
  obtain ⟨items, fields, rfl, hget, rfl⟩ := h.item hshaped
  by_cases hplace : place = .branches
  · subst hplace
    refine ⟨_, mem_taskScopes_of_branch hlist hget, 0, ?_, fun pointer => ?_⟩
    · have hbody : taskBody (.obj [(name, .obj fields)]) = [.obj [(name, .obj fields)]] := by
        refine taskBody_of_no_do fun inner hmem => ?_
        cases List.mem_singleton.mp hmem
        exact hdo rfl rfl
      show (taskBody (.obj [(name, .obj fields)]))[0]? = _
      rw [hbody]
      rfl
    · simp [NestedScope.reference, Place.suffix]
  · exact ⟨_, mem_taskScopes_of_place hplace hlist, index, hget, fun pointer => rfl⟩

variable {pointer : Pointer}

/-- Every reached task is planned, if none of the reached branches is named `do`. -/
theorem Reached.planned (hresolves : WorkflowResolves workflow effective)
    (hshaped : Shaped workflow) (htasks : effective.field? "do" = some tasks)
    (hitems : tasks.iterate = .ok items) (hdo : NoReachedBranchNamedDo workflow) {d : Json}
    (h : Reached workflow pointer name d) :
    ∃ d', Planned (functionsOf effective) items pointer name d' ∧
      Resolves (componentsOf workflow) d d' := by
  induction h with
  | @root index name d hhas =>
    obtain ⟨d', hhas', hd⟩ := listHas_resolved hresolves.tasks hhas
    rw [htasks] at hhas'
    have hlist := hresolves.tasks
    rw [htasks] at hlist
    obtain ⟨list, hdo, hlist⟩ := rel_some_right hlist
    obtain ⟨items', _, rfl, hget, -⟩ := hhas'.item
      (taskListShaped_of_resolves (hshaped.root list hdo) hlist)
    cases hitems
    exact ⟨d', .root hget, hd⟩
  | @nested pointer parent d place index name inner hparent hhas ih =>
    obtain ⟨d', hplanned, hd⟩ := ih
    obtain ⟨inner', hhas', hinner⟩ := hd.hasTask hhas
    obtain ⟨list, _, hvalue, -⟩ := id hhas
    have hlist := hd.place place
    rw [hvalue] at hlist
    obtain ⟨list', hvalue', hlist⟩ := rel_some_left hlist
    have hlist' := taskListShaped_of_resolves
      (hshaped.nested pointer parent d hparent.sourceTask place _ hvalue) hlist
    have hname : place = .branches → name ≠ "do" := by
      rintro rfl rfl
      exact hdo pointer parent d index inner hparent hhas
    obtain ⟨nested, hnested, position, hitem, hreference⟩ :=
      exists_nested_of_hasTask hvalue' hlist' hhas' hname
    exact ⟨inner', hreference pointer ▸ .nested hplanned hnested hitem, hinner⟩
  | @called pointer parent d callee body hparent hcall hbody ih =>
    obtain ⟨d', hplanned, hd⟩ := ih
    have hrel := hresolves.functions callee
    rw [hbody] at hrel
    obtain ⟨body', hbody', hresolved⟩ := rel_some_left hrel
    have hcall' := hd.fields.2 "call" (by decide)
    exact ⟨body', .called hplanned (hcall'.trans hcall) hbody', hresolved⟩

/-- Every planned task is a reached one, if none of the reached branches is named `do`. -/
theorem Planned.reached (hresolves : WorkflowResolves workflow effective)
    (htasks : effective.field? "do" = some tasks) (hitems : tasks.iterate = .ok items)
    (hdo : NoReachedBranchNamedDo workflow) {d' : Json}
    (h : Planned (functionsOf effective) items pointer name d') :
    ∃ d, Reached workflow pointer name d ∧ Resolves (componentsOf workflow) d d' := by
  induction h with
  | @root index name d' hget =>
    have hhas' := listHas_of_iterate hitems hget
    rw [← htasks] at hhas'
    obtain ⟨d, hhas, hd⟩ := listHas_of_resolved hresolves.tasks hhas'
    exact ⟨d, .root hhas, hd⟩
  | @nested pointer parent d' nested position name inner' hplanned hnested hitem ih =>
    obtain ⟨d, hreached, hd⟩ := ih
    have hplain : PlainBranches d' := by
      refine plainBranches_of_resolves hd fun index inner' hinner' => ?_
      obtain ⟨inner, hinner, -⟩ := hd.hasTask_of_resolved hinner'
      exact hdo pointer parent d index inner hreached hinner
    obtain ⟨place, index, hhas', hreference⟩ := hasTask_of_mem_taskScopes hplain hnested hitem
    obtain ⟨inner, hhas, hinner⟩ := hd.hasTask_of_resolved hhas'
    have hsame : nested.reference pointer position name =
        pointer ++ place.suffix ++ [toString index, name] :=
      hreference (rootCall []) 0 "" pointer
    exact ⟨inner, hsame ▸ .nested hreached hhas, hinner⟩
  | @called pointer parent d' callee body' hplanned hcall hbody' ih =>
    obtain ⟨d, hreached, hd⟩ := ih
    have hrel := hresolves.functions callee
    rw [hbody'] at hrel
    obtain ⟨body, hbody, hresolved⟩ := rel_some_right hrel
    have hcall' := hd.fields.2 "call" (by decide)
    exact ⟨body, .called hreached (hcall'.symm.trans hcall) hbody, hresolved⟩

/-- A task planned at the reference of a branch is read from that branch of a planned task. -/
theorem Planned.of_branch {functions : Json} {d' : Json}
    (h : Planned functions items (pointer ++ Place.branches.suffix ++ [toString index, name]) name
      d') : ∃ parent d branches branch, Planned functions items pointer parent d ∧
      Place.branches.value d = some (.arr branches) ∧ branches[index]? = some branch ∧
      .obj [(name, d')] ∈ taskBody branch := by
  generalize hreference : pointer ++ Place.branches.suffix ++ [toString index, name] = reference at h
  cases h with
  | root =>
    have hlength := congrArg List.length hreference
    simp [Place.suffix] at hlength
  | called =>
    have hlength := congrArg List.length hreference
    simp [Place.suffix] at hlength
  | @nested pointer' parent d nested position _ _ hparent hnested hitem =>
    have hreverse := congrArg List.reverse hreference
    rcases mem_taskScopes hnested with ⟨place, hplace, -, hsuffix, hindexed⟩ |
      ⟨branches, index', branch, hvalue, hbranch, rfl⟩
    · unfold NestedScope.reference at hreverse
      rw [if_pos hindexed, hsuffix] at hreverse
      cases place <;> simp [Place.suffix] at hreverse hplace
    · simp [NestedScope.reference, Place.suffix] at hreverse
      obtain ⟨rfl, rfl⟩ := hreverse
      exact ⟨parent, d, branches, branch, hparent, hvalue, hbranch, List.mem_of_getElem? hitem⟩

/-! ## Which plans keep the tasks -/

/-- A plan keeps these tasks of a workflow: each of them is planned at its pointer and under its
name, with what resolution makes of its definition; and the reference of each planned task leads
to a task of that name, whose definition the planned one is the resolution of. -/
structure Keeps (workflow : Json) (kept : Pointer → String → Json → Prop)
    (scopes : List ScopePlan) : Prop where
  planned : ∀ pointer name d, kept pointer name d →
    ∃ d', HasPlan scopes pointer name d' ∧ Resolves (componentsOf workflow) d d'
  found : ∀ task ∈ allTasks scopes,
    SourceTask workflow task.reference task.name
      (definitionAtPointer workflow (Pointer.text task.reference)) ∧
    Resolves (componentsOf workflow)
      (definitionAtPointer workflow (Pointer.text task.reference)) task.definition

theorem keeps_of_no_branch_named_do (hresolves : WorkflowResolves workflow effective)
    (hshaped : Shaped workflow) (htasks : effective.field? "do" = some tasks)
    (hitems : tasks.iterate = .ok items)
    (hscopes : ∀ pointer name d, HasPlan scopes pointer name d ↔
      Planned (functionsOf effective) items pointer name d) (hdo : NoReachedBranchNamedDo workflow)
    :
    Keeps workflow (Reached workflow) scopes where
  planned pointer name d hreached := by
    obtain ⟨d', hplanned, hd⟩ := hreached.planned hresolves hshaped htasks hitems hdo
    exact ⟨d', (hscopes pointer name d').mpr hplanned, hd⟩
  found task htask := by
    have hplanned := (hscopes task.reference task.name task.definition).mp
      ⟨task, htask, rfl, rfl, rfl⟩
    obtain ⟨d, hreached, hd⟩ := hplanned.reached hresolves htasks hitems hdo
    rw [hreached.sourceTask.definitionAtPointer_eq hshaped]
    exact ⟨hreached.sourceTask, hd⟩

/-- A branch named `do` is not planned: what would be planned for it is what stands under `do` in
its definition, which is a list of tasks and no task. -/
theorem no_branch_named_do_of_keeps (hshaped : Shaped workflow) {functions : Json}
    (hscopes : ∀ pointer name d, HasPlan scopes pointer name d ↔
      Planned functions items pointer name d) (h : Keeps workflow (Reached workflow) scopes) :
    NoReachedBranchNamedDo workflow := by
  intro pointer parent d index inner hreached hhas
  have hinner := Reached.nested hreached hhas
  obtain ⟨d', hplan, hd'⟩ := h.planned _ _ _ hinner
  obtain ⟨parent', D, branches, branch, hplanned, hvalue, hbranch, hbody⟩ :=
    ((hscopes _ _ _).mp hplan).of_branch
  -- the task planned at the pointer of the fork is the fork
  obtain ⟨task, htask, rfl, rfl, rfl⟩ := (hscopes _ _ _).mpr hplanned
  have hD := (h.found task htask).2
  rw [hreached.sourceTask.definitionAtPointer_eq hshaped] at hD
  -- so the branch is the resolution of the source's branch
  obtain ⟨inner', hhas', hinner'⟩ := hD.hasTask hhas
  obtain ⟨list, _, hlist, -⟩ := id hhas
  have hrel := hD.place .branches
  rw [hlist, hvalue] at hrel
  have hshaped' : TaskListShaped (.arr branches) := by
    cases hrel with
    | some hrel =>
      exact taskListShaped_of_resolves
        (hshaped.nested _ _ _ hreached.sourceTask .branches _ hlist) hrel
  unfold HasTask at hhas'
  rw [hvalue] at hhas'
  obtain ⟨_, fields, heq, hget, rfl⟩ := hhas'.item hshaped'
  cases heq
  cases hbranch.symm.trans hget
  have hone : Json.obj [("do", d')] = .obj fields := by simpa [taskBody, Json.field?] using hbody
  cases hone
  -- under `do` there is a list in the source, and a task in the plan
  have hdo := hinner'.place .sequence
  have hvalue' : Place.sequence.value (.obj [("do", d')]) = some d' := rfl
  rw [hvalue'] at hdo
  obtain ⟨list', hlist', hresolved⟩ := rel_some_right hdo
  obtain ⟨items', hitems', -⟩ := hshaped.nested _ _ _ hinner.sourceTask .sequence _ hlist'
  subst hitems'
  obtain ⟨_, harr, -⟩ := hresolved.items
  obtain ⟨_, hobj⟩ := hd'.fields.1
  cases harr.symm.trans hobj

end Resolved

/-- Normalization keeps every task exactly when no branch of a fork is a task named `do`, as far
as functions are called: a plan without imports has all reached tasks, under their names and with
references that lead back to them, exactly when no reached branch is named `do`; and all tasks of
the source, those of functions included, exactly when moreover each function is reached. -/
theorem normalization_keeps_tasks_iff (checks : OtherChecks) (order : SetOrder) (depth : ℕ)
    (workflow : Json) (scopes : List ScopePlan) (hshaped : Shaped workflow)
    (hplan : normalizeWorkflow checks order [] depth workflow = .ok scopes) :
    (Keeps workflow (Reached workflow) scopes ↔ NoReachedBranchNamedDo workflow) ∧
    (Keeps workflow (SourceTask workflow) scopes ↔
      NoReachedBranchNamedDo workflow ∧ EveryFunctionReached workflow) := by
  obtain ⟨effective, tasks, items, hresolved, htasks, hitems, hadds⟩ :=
    normalizeWorkflow_eq_ok hplan
  have hresolves := resolveComponents_eq_ok (resolveReusableComponents_eq_ok hresolved).1
  have hscopes : ∀ pointer name d, HasPlan scopes pointer name d ↔
      Planned (functionsOf effective) items pointer name d :=
    fun _ _ _ => hasPlan_iff_planned hadds
  have hreached : Keeps workflow (Reached workflow) scopes ↔ NoReachedBranchNamedDo workflow :=
    ⟨no_branch_named_do_of_keeps hshaped hscopes,
      keeps_of_no_branch_named_do hresolves hshaped htasks hitems hscopes⟩
  refine ⟨hreached, ?_, ?_⟩
  · intro hkeeps
    have hdo := hreached.mp
      ⟨fun pointer name d hd => hkeeps.planned pointer name d hd.sourceTask, hkeeps.found⟩
    refine ⟨hdo, fun name body hbody => ?_⟩
    obtain ⟨d', hplanned, -⟩ := hkeeps.planned _ _ _ (SourceTask.function hbody)
    obtain ⟨d, hd, -⟩ := ((hscopes _ _ _).mp hplanned).reached hresolves htasks hitems hdo
    -- a pointer leads to one definition
    have hsame := hd.sourceTask.definitionAtPointer_eq hshaped
    rw [(SourceTask.function hbody).definitionAtPointer_eq hshaped] at hsame
    rw [hsame]
    exact hd
  · rintro ⟨hdo, hfunctions⟩
    obtain ⟨hplanned, hfound⟩ := hreached.mpr hdo
    refine ⟨fun pointer name d hd => hplanned pointer name d ?_, hfound⟩
    induction hd with
    | root h => exact .root h
    | function h => exact hfunctions _ _ h
    | nested _ h ih => exact .nested ih h

/-- The plan of the greeting has its task and its function. -/
theorem greeting_keeps_tasks :
    ∃ scopes, normalizeWorkflow noChecks foundOrder [] 3 greeting = .ok scopes ∧
      Keeps greeting (SourceTask greeting) scopes := by
  have hshaped : Shaped greeting := by
    constructor
    · intro list hlist
      cases hlist
      exact ⟨_, rfl, fun item hitem => ⟨"start", _, List.mem_singleton.mp hitem⟩⟩
    · intro pointer name d hd place list hlist
      rw [greeting_places hd place] at hlist
      cases hlist
  have hstart : Reached greeting ["do", toString 0, "start"] "start"
      (.obj [("call", .str "greet")]) :=
    .root ⟨_, _, rfl, rfl, List.mem_singleton.mpr rfl⟩
  have hdo : NoReachedBranchNamedDo greeting := by
    rintro pointer parent d index inner hd ⟨_, _, hvalue, -⟩
    rw [greeting_places hd.sourceTask] at hvalue
    cases hvalue
  have hfunctions : EveryFunctionReached greeting := by
    intro name body hbody
    have hname : name = "greet" := by
      by_contra hne
      have hnone : (functionsOf greeting).field? name = none := by
        simp [functionsOf, componentsOf, greeting, Json.field?, Ne.symm hne]
      cases hnone.symm.trans hbody
    subst hname
    exact .called hstart rfl hbody
  cases hplan : normalizeWorkflow noChecks foundOrder [] 3 greeting with
  | error =>
    have hok : (normalizeWorkflow noChecks foundOrder [] 3 greeting).toOption.isSome := by
      decide +kernel
    rw [hplan] at hok
    cases hok
  | ok scopes =>
    exact ⟨scopes, rfl, (normalization_keeps_tasks_iff noChecks foundOrder 3 greeting scopes
      hshaped hplan).2.mpr ⟨hdo, hfunctions⟩⟩

/-- A task that sets a value named `set`. -/
def setNamedSet : Json := .obj [("set", .obj [("set", .obj [("a", .int 1)])])]

/-- A fork with that task as its one branch, named `do`. -/
def forkNamedDo : Json :=
  .obj [("fork", .obj [("branches", .arr [.obj [("do", setNamedSet)]])])]

/-- A workflow of that fork. -/
def branchNamedDo : Json :=
  .obj [("document", sampleDocument), ("do", .arr [.obj [("parallel", forkNamedDo)]])]

/-- The tasks of the workflow: the fork, and its branch. -/
theorem branchNamedDo_tasks {pointer : Pointer} {name : String} {d : Json}
    (h : SourceTask branchNamedDo pointer name d) : d = forkNamedDo ∨ d = setNamedSet := by
  induction h with
  | @root index name d hhas =>
    obtain ⟨items, fields, hitems, hget, hmem⟩ := hhas
    cases hitems
    cases index with
    | zero =>
      cases hget
      cases List.mem_singleton.mp hmem
      exact Or.inl rfl
    | succ => cases hget
  | function hfunction => cases hfunction
  | @nested pointer parent d place index name inner _ hhas ih =>
    obtain ⟨items, fields, hvalue, hget, hmem⟩ := hhas
    rcases ih with rfl | rfl
    · cases place with
      | branches =>
        cases hvalue
        cases index with
        | zero =>
          cases hget
          cases List.mem_singleton.mp hmem
          exact Or.inr rfl
        | succ => cases hget
      | _ => cases hvalue
    · cases place <;> cases hvalue

/-- The workflow has the shape of the schema and a plan.  Its branch, the task `do`, is not in the
plan; a task `set` is planned in its place, and there is nothing at the reference of that task. -/
theorem branchNamedDo_not_kept :
    Shaped branchNamedDo ∧
    SourceTask branchNamedDo ["do", "0", "parallel", "fork", "branches", "0", "do"] "do"
      setNamedSet ∧
    ∃ scopes, normalizeWorkflow noChecks foundOrder [] 4 branchNamedDo = .ok scopes ∧
      (allTasks scopes).map TaskPlan.name = ["parallel", "set"] ∧
      (allTasks scopes).map (fun task =>
        definitionAtPointer branchNamedDo (Pointer.text task.reference)) =
          [forkNamedDo, .null] := by
  refine ⟨⟨?_, ?_⟩, ?_, ?_⟩
  · intro list hlist
    cases hlist
    exact ⟨_, rfl, fun item hitem => ⟨"parallel", _, List.mem_singleton.mp hitem⟩⟩
  · intro pointer name d hd place list hlist
    rcases branchNamedDo_tasks hd with rfl | rfl
    · cases place with
      | branches =>
        cases hlist
        exact ⟨_, rfl, fun item hitem => ⟨"do", _, List.mem_singleton.mp hitem⟩⟩
      | _ => cases hlist
    · cases place <;> cases hlist
  · have hfork : SourceTask branchNamedDo ["do", toString 0, "parallel"] "parallel" forkNamedDo :=
      .root ⟨_, _, rfl, rfl, List.mem_singleton.mpr rfl⟩
    have hbranch : HasTask forkNamedDo .branches 0 "do" setNamedSet :=
      ⟨_, _, rfl, rfl, List.mem_singleton.mpr rfl⟩
    exact .nested hfork hbranch
  · have hplan : ((normalizeWorkflow noChecks foundOrder [] 4 branchNamedDo).toOption.map
        fun scopes => ((allTasks scopes).map TaskPlan.name,
          (allTasks scopes).map fun task =>
            definitionAtPointer branchNamedDo (Pointer.text task.reference))) =
        some (["parallel", "set"], [forkNamedDo, .null]) := by
      decide +kernel
    cases hscopes : normalizeWorkflow noChecks foundOrder [] 4 branchNamedDo with
    | error =>
      rw [hscopes] at hplan
      cases hplan
    | ok scopes =>
      rw [hscopes] at hplan
      have hpair := Prod.mk.inj (Option.some.inj hplan)
      exact ⟨scopes, rfl, hpair.1, hpair.2⟩

end WorkflowPlan
