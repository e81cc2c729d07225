/-
# Trees of definitions

Where tasks stand in the definition of a workflow.  A definition has five places for lists of
tasks, and a task of it is found by place, position and name; `SourceTask` are the tasks of a
workflow with the pointers to them.  This is the reading of a workflow by position, against which
the traversals of the source are compared.

Putting in the named components of a workflow changes no task: `Resolves` relates a definition to
what `resolve_reusable_components` makes of it, and each of the two has the tasks of the other.
-/
import OpenWorkflowAgent.WorkflowPlans

open WorkflowPlan

/-! ## Updates of fields -/

namespace Json

theorem field?_map_update (fields : List (String × Json)) (name : String) (updated : Json)
    (other : String) :
    field? other (.obj (fields.map fun field => if field.1 = name then (name, updated) else field))
      = if other = name then (field? name (.obj fields)).map fun _ => updated
        else field? other (.obj fields) := by
  unfold field?
  induction fields with
  | nil => simp
  | cons field _ ih =>
    by_cases hfield : field.1 = name
    · by_cases hother : other = name
      · simp [hfield, hother]
      · have hne : name ≠ other := fun h => hother h.symm
        simp only [hother, if_false] at ih ⊢
        simp only [List.map_cons, hfield, if_true, List.find?_cons, hne, decide_false]
        exact ih
    · by_cases hother : other = name
      · simp only [hother, if_true] at ih ⊢
        simp only [List.map_cons, hfield, if_false, List.find?_cons, decide_false]
        exact ih
      · simp only [hother, if_false] at ih ⊢
        simp only [List.map_cons, hfield, if_false, List.find?_cons]
        by_cases hfound : field.1 = other
        · simp [hfound]
        · simp only [hfound, decide_false]
          exact ih

theorem updateField_eq_ok {name : String} {update : Json → Except OwaError Json} {v v' : Json}
    (h : v.updateField name update = .ok v') :
    (∃ fields, v' = .obj fields) ∧ (∀ other, other ≠ name → v'.field? other = v.field? other) ∧
      Option.Rel (fun a b => update a = .ok b) (v.field? name) (v'.field? name) := by
  cases v with
  | obj fields =>
    unfold updateField at h
    cases hfield : field? name (.obj fields) with
    | none =>
      simp only [hfield, Except.ok.injEq] at h
      subst h
      exact ⟨⟨fields, rfl⟩, fun _ _ => rfl, by rw [hfield]; exact .none⟩
    | some =>
      simp only [hfield, except_bind_eq_ok] at h
      obtain ⟨updated, hupdate, h⟩ := h
      cases h
      refine ⟨⟨_, rfl⟩, fun other hother => ?_, ?_⟩
      · rw [field?_map_update, if_neg hother]
      · rw [field?_map_update, if_pos rfl, hfield]
        exact .some hupdate
  | _ => cases h

end Json

namespace Definitions

/-! ## Places -/

/-- The places of a definition where a list of tasks stands. -/
inductive Place where
  /-- `do` -/
  | sequence
  /-- `try` -/
  | attempt
  /-- `catch.do` -/
  | handler
  /-- `foreach.do` of a listener -/
  | iterator
  /-- `fork.branches` -/
  | branches
  deriving DecidableEq

namespace Place

def suffix : Place → List String
  | .sequence => ["do"]
  | .attempt => ["try"]
  | .handler => ["catch", "do"]
  | .iterator => ["foreach", "do"]
  | .branches => ["fork", "branches"]

/-- What stands at a place of a definition. -/
def value (definition : Json) : Place → Option Json
  | .sequence => definition.field? "do"
  | .attempt => definition.field? "try"
  | .handler => (definition.field? "catch").bind (Json.field? "do")
  | .iterator => (iteratorOf definition).bind (Json.field? "do")
  | .branches => (definition.field? "fork").bind (Json.field? "branches")

end Place

def ListHas (list : Option Json) (index : ℕ) (name : String) (definition : Json) : Prop :=
  ∃ items fields, list = some (.arr items) ∧ items[index]? = some (.obj fields) ∧
    (name, definition) ∈ fields

def HasTask (definition : Json) (place : Place) (index : ℕ) (name : String) (nested : Json) :
    Prop :=
  ListHas (place.value definition) index name nested

/-- The tasks of a workflow: its own, the reusable functions, and what is nested in them; with
the pointer to each task, its name and its definition. -/
inductive SourceTask (workflow : Json) : Pointer → String → Json → Prop where
  | root {index : ℕ} {name : String} {definition : Json}
      (h : ListHas (workflow.field? "do") index name definition) :
      SourceTask workflow ["do", toString index, name] name definition
  | function {name : String} {definition : Json}
      (h : (functionsOf workflow).field? name = some definition) :
      SourceTask workflow ["use", "functions", name] name definition
  | nested {pointer : Pointer} {parent : String} {definition : Json} {place : Place} {index : ℕ}
      {name : String} {inner : Json} (hparent : SourceTask workflow pointer parent definition)
      (h : HasTask definition place index name inner) :
      SourceTask workflow (pointer ++ place.suffix ++ [toString index, name]) name inner

/-! ## What resolution keeps -/

/-- A definition, and what resolution makes of it. -/
def Resolves (use : Json) (definition resolved : Json) : Prop :=
  ∃ depth reference, resolveTask use depth reference definition = .ok resolved

/-- A list of tasks, and what resolution makes of it. -/
def ListResolves (use : Json) (list resolved : Json) : Prop :=
  ∃ depth reference, resolveTasks (resolveTask use depth) reference list = .ok resolved

/-- The named fields of a mapping, and what resolution makes of them. -/
def FieldsResolve (use : Json) (fields resolved : List (String × Json)) : Prop :=
  List.Forall₂ (fun field field' => field.1 = field'.1 ∧ Resolves use field.2 field'.2) fields
    resolved

theorem forall₂_of_mapM {α β ε : Type} {f : α → Except ε β} {l : List α} {l' : List β}
    (h : l.mapM f = .ok l') : List.Forall₂ (fun a b => f a = .ok b) l l' := by
  induction l generalizing l' with
  | nil =>
    cases h
    exact .nil
  | cons _ _ ih =>
    simp only [List.mapM_cons, except_bind_eq_ok] at h
    obtain ⟨b, hb, bs, hbs, h⟩ := h
    cases h
    exact .cons hb (ih hbs)

variable {use : Json} {depth index : ℕ}

theorem fieldsResolve_of_mapM (reference : String → Pointer)
    {fields resolved : List (String × Json)} (h : (fields.mapM fun field => do
      let definition ← resolveTask use depth (reference field.1) field.2
      return (field.1, definition)) = Except.ok resolved) : FieldsResolve use fields resolved := by
  refine (forall₂_of_mapM h).imp fun field field' hfield => ?_
  simp only [except_bind_eq_ok] at hfield
  obtain ⟨definition, hdefinition, hfield⟩ := hfield
  cases hfield
  exact ⟨rfl, depth, _, hdefinition⟩

theorem resolveItem_eq_ok {start : Pointer} {item item' : Json}
    (h : resolveItem (resolveTask use depth) start item = .ok item') :
    ∃ fields fields', item = .obj fields ∧ item' = .obj fields' ∧
      FieldsResolve use fields fields' := by
  unfold resolveItem at h
  obtain ⟨fields, hfields, h⟩ := except_bind_eq_ok.mp h
  obtain ⟨resolved, hresolved, h⟩ := except_bind_eq_ok.mp h
  cases h
  cases item with
  | obj =>
    cases hfields
    exact ⟨fields, resolved, rfl, rfl,
      fieldsResolve_of_mapM (fun name => start ++ [name]) hresolved⟩
  | _ => cases hfields

variable {resolved : Json}

/-- Resolution of a list keeps its length and the names in its items. -/
theorem ListResolves.items {items : List Json} (h : ListResolves use (.arr items) resolved) :
    ∃ items', resolved = .arr items' ∧
      List.Forall₂ (fun item item' => ∃ fields fields', item = .obj fields ∧ item' = .obj fields' ∧
        FieldsResolve use fields fields') items items' := by
  obtain ⟨depth, reference, h⟩ := h
  unfold resolveTasks at h
  obtain ⟨items', hitems, h⟩ := except_bind_eq_ok.mp h
  cases h
  refine ⟨items', rfl, ?_⟩
  have hall := forall₂_of_mapM hitems
  have hzip : items = items.zipIdx.map Prod.fst := by simp
  rw [hzip, List.forall₂_map_left_iff]
  exact hall.imp fun item item' hitem => resolveItem_eq_ok hitem

theorem ListResolves.of_not_arr {list : Json} (h : ListResolves use list resolved)
    (hlist : ∀ items, list ≠ .arr items) : resolved = list := by
  obtain ⟨depth, reference, h⟩ := h
  cases list with
  | arr items => exact absurd rfl (hlist items)
  | _ =>
    simp only [resolveTasks, except_bind_eq_ok] at h
    obtain ⟨_, -, _, -, h⟩ := h
    cases h
    rfl

variable {name : String}

theorem FieldsResolve.of_mem {fields resolved : List (String × Json)}
    (h : FieldsResolve use fields resolved) {definition : Json} (hmem : (name, definition) ∈ fields)
    :
    ∃ definition', (name, definition') ∈ resolved ∧ Resolves use definition definition' := by
  induction h with
  | nil => cases hmem
  | @cons field field' _ _ hfield _ ih =>
    rcases List.mem_cons.mp hmem with hhead | hmem
    · rw [← hhead] at hfield
      exact ⟨field'.2, List.mem_cons.mpr (Or.inl (Prod.ext hfield.1 rfl)), hfield.2⟩
    · obtain ⟨definition', hmem', hresolves⟩ := ih hmem
      exact ⟨definition', List.mem_cons_of_mem _ hmem', hresolves⟩

theorem FieldsResolve.of_mem_resolved {fields resolved : List (String × Json)}
    (h : FieldsResolve use fields resolved) {definition' : Json}
    (hmem : (name, definition') ∈ resolved) :
    ∃ definition, (name, definition) ∈ fields ∧ Resolves use definition definition' := by
  induction h with
  | nil => cases hmem
  | @cons field field' _ _ hfield _ ih =>
    rcases List.mem_cons.mp hmem with hhead | hmem
    · rw [← hhead] at hfield
      exact ⟨field.2, List.mem_cons.mpr (Or.inl (Prod.ext hfield.1.symm rfl)), hfield.2⟩
    · obtain ⟨definition, hmem', hresolves⟩ := ih hmem
      exact ⟨definition, List.mem_cons_of_mem _ hmem', hresolves⟩

/-- The first field of a name resolves to the first field of that name. -/
theorem FieldsResolve.field? {fields resolved : List (String × Json)}
    (h : FieldsResolve use fields resolved) (name : String) :
    Option.Rel (Resolves use) (Json.field? name (.obj fields))
      (Json.field? name (.obj resolved)) := by
  unfold Json.field?
  induction h with
  | nil => exact .none
  | @cons field field' fields resolved hfield _ ih =>
    simp only [List.find?_cons, ← hfield.1]
    by_cases hname : field.1 = name
    · simp only [hname, decide_true, Option.map_some]
      exact .some hfield.2
    · simp only [hname, decide_false]
      exact ih

/-! ## Tasks of lists -/

/-- A list has the tasks of the list it resolves to. -/
theorem listHas_of_resolved {list list' : Option Json}
    (h : Option.Rel (ListResolves use) list list') {definition' : Json}
    (hhas : ListHas list' index name definition') :
    ∃ definition, ListHas list index name definition ∧ Resolves use definition definition' := by
  obtain ⟨items', fields', rfl, hitem', hmem⟩ := hhas
  cases h with
  | @some value _ hvalue =>
    cases value with
    | arr items =>
      obtain ⟨items₁, heq, hall⟩ := hvalue.items
      cases heq
      obtain ⟨hindex', hget'⟩ := List.getElem?_eq_some_iff.mp hitem'
      have hindex : index < items.length := hall.length_eq ▸ hindex'
      obtain ⟨fields, fields₁, hitem, hitem₁, hfields⟩ := hall.get hindex hindex'
      simp only [List.get_eq_getElem] at hitem hitem₁
      rw [hget'] at hitem₁
      cases hitem₁
      obtain ⟨definition, hdefinition, hresolves⟩ := hfields.of_mem_resolved hmem
      exact ⟨definition, ⟨items, fields, rfl, List.getElem?_eq_some_iff.mpr ⟨hindex, hitem⟩,
        hdefinition⟩, hresolves⟩
    | _ => cases hvalue.of_not_arr fun _ h => by cases h

theorem listHas_resolved {list list' : Option Json} (h : Option.Rel (ListResolves use) list list')
    {definition : Json} (hhas : ListHas list index name definition) :
    ∃ definition', ListHas list' index name definition' ∧ Resolves use definition definition' := by
  obtain ⟨items, fields, rfl, hitem, hmem⟩ := hhas
  cases h with
  | some hvalue =>
    obtain ⟨items', rfl, hall⟩ := hvalue.items
    obtain ⟨hindex, hget⟩ := List.getElem?_eq_some_iff.mp hitem
    have hindex' : index < items'.length := hall.length_eq ▸ hindex
    obtain ⟨fields₁, fields', hitem₁, hitem', hfields⟩ := hall.get hindex hindex'
    simp only [List.get_eq_getElem] at hitem₁ hitem'
    rw [hget] at hitem₁
    cases hitem₁
    obtain ⟨definition', hdefinition, hresolves⟩ := hfields.of_mem hmem
    exact ⟨definition', ⟨items', fields', rfl, List.getElem?_eq_some_iff.mpr ⟨hindex', hitem'⟩,
      hdefinition⟩, hresolves⟩

/-! ## Tasks of definitions -/

/-- The fields that resolution puts something in, or where it looks for tasks. -/
def resolvedFields : List String := ["timeout", "raise", "catch", "do", "try", "foreach", "fork"]

theorem rel_bind {α β γ δ : Type} {r : α → β → Prop} {s : γ → δ → Prop} {x : Option α} {y : Option β}
    {f : α → Option γ} {g : β → Option δ} (h : Option.Rel r x y)
    (hfg : ∀ a b, r a b → Option.Rel s (f a) (g b)) : Option.Rel s (x.bind f) (y.bind g) := by
  cases h with
  | none => exact .none
  | some hab => exact hfg _ _ hab

/-- An update of mappings, read through a field of them. -/
theorem rel_bind_field {update : Json → Except OwaError Json} {value value' : Option Json}
    (h : Option.Rel (fun a b => Json.whenMapping update a = .ok b) value value')
    (hupdate : ∀ a b, update a = .ok b →
      Option.Rel (ListResolves use) (a.field? name) (b.field? name)) :
    Option.Rel (ListResolves use) (value.bind (Json.field? name))
      (value'.bind (Json.field? name)) := by
  refine rel_bind h fun a b hab => ?_
  cases a with
  | obj => exact hupdate _ _ hab
  | _ =>
    cases hab
    exact .none

/-- An update of a list of tasks. -/
theorem rel_listResolves {reference : Pointer} {value value' : Option Json}
    (h : Option.Rel (fun a b => resolveTasks (resolveTask use depth) reference a = .ok b)
      value value') : Option.Rel (ListResolves use) value value' := by
  cases h with
  | none => exact .none
  | some hab => exact .some ⟨depth, reference, hab⟩

/-- The steps of the resolution of a definition.  Each updates one field, and `foreach` is looked at
only where there is a `listen`. -/
theorem resolveTask_eq_ok {reference : Pointer} {d d' : Json}
    (h : resolveTask use (depth + 1) reference d = .ok d') : (∃ fields, d' = .obj fields) ∧
    (∀ name, name ∉ resolvedFields → d'.field? name = d.field? name) ∧
    Option.Rel (fun a b => Json.whenMapping
      (resolveCatch use (resolveTask use depth) (reference ++ ["catch"])) a = .ok b)
      (d.field? "catch") (d'.field? "catch") ∧
    Option.Rel (fun a b => resolveTasks (resolveTask use depth) (reference ++ ["do"]) a = .ok b)
      (d.field? "do") (d'.field? "do") ∧
    Option.Rel (fun a b => resolveTasks (resolveTask use depth) (reference ++ ["try"]) a = .ok b)
      (d.field? "try") (d'.field? "try") ∧
    Option.Rel (fun a b => Json.whenMapping (Json.updateField "do"
      (resolveTasks (resolveTask use depth) (reference ++ ["foreach", "do"]))) a = .ok b)
      (iteratorOf d) (iteratorOf d') ∧
    Option.Rel (fun a b => Json.whenMapping
      (resolveBranches (resolveTask use depth) (reference ++ ["fork", "branches"])) a = .ok b)
      (d.field? "fork") (d'.field? "fork") := by
  simp only [resolveTask, except_bind_eq_ok] at h
  obtain ⟨d₁, h₁, d₂, h₂, d₃, h₃, d₄, h₄, d₅, h₅, d₆, h₆, h₇⟩ := h
  obtain ⟨-, hother₁, -⟩ := Json.updateField_eq_ok h₁
  obtain ⟨-, hother₂, -⟩ := Json.updateField_eq_ok h₂
  obtain ⟨-, hother₃, hcatch⟩ := Json.updateField_eq_ok h₃
  obtain ⟨-, hother₄, hdo⟩ := Json.updateField_eq_ok h₄
  obtain ⟨-, hother₅, htry⟩ := Json.updateField_eq_ok h₅
  obtain ⟨hobj, hother₇, hfork⟩ := Json.updateField_eq_ok h₇
  -- the iterator is the one field that may be passed over
  obtain ⟨hother₆, hiterator⟩ : (∀ other, other ≠ "foreach" → d₆.field? other = d₅.field? other) ∧
      Option.Rel (fun a b => Json.whenMapping (Json.updateField "do"
        (resolveTasks (resolveTask use depth) (reference ++ ["foreach", "do"]))) a = .ok b)
        (iteratorOf d₅) (iteratorOf d₆) := by
    unfold resolveIterator at h₆
    by_cases hlisten : (d₅.field? "listen").isSome
    · rw [if_pos hlisten] at h₆
      obtain ⟨-, hother, hforeach⟩ := Json.updateField_eq_ok h₆
      refine ⟨hother, ?_⟩
      unfold iteratorOf
      rw [hother "listen" (by decide), if_pos hlisten, if_pos hlisten]
      exact hforeach
    · rw [if_neg hlisten] at h₆
      cases h₆
      refine ⟨fun _ _ => rfl, ?_⟩
      unfold iteratorOf
      rw [if_neg hlisten]
      exact .none
  refine ⟨hobj, fun name hname => ?_, ?_⟩
  · simp only [resolvedFields, List.mem_cons, List.not_mem_nil, or_false, not_or] at hname
    obtain ⟨htimeout, hraise, hcatch, hdo, htry, hforeach, hfork⟩ := hname
    rw [hother₇ name hfork, hother₆ name hforeach, hother₅ name htry, hother₄ name hdo,
      hother₃ name hcatch, hother₂ name hraise, hother₁ name htimeout]
  · -- each field has changed once: before and after, the updates of the others leave it alone
    simp only [iteratorOf] at hiterator ⊢
    simp (disch := decide) only [hother₁, hother₂, hother₃, hother₄, hother₅, hother₆, hother₇]
      at hcatch hdo htry hiterator hfork ⊢
    exact ⟨hcatch, hdo, htry, hiterator, hfork⟩

/-- What stands at a place of a definition, and at that place of what it resolves to. -/
theorem Resolves.place {d d' : Json} (h : Resolves use d d') (place : Place) :
    Option.Rel (ListResolves use) (place.value d) (place.value d') := by
  obtain ⟨depth, reference, h⟩ := h
  cases depth with
  | zero => cases h
  | succ =>
    obtain ⟨-, -, hcatch, hdo, htry, hiterator, hfork⟩ := resolveTask_eq_ok h
    cases place with
    | sequence => exact rel_listResolves hdo
    | attempt => exact rel_listResolves htry
    | handler =>
      refine rel_bind_field hcatch fun a b hab => ?_
      unfold resolveCatch at hab
      obtain ⟨clause, hretry, hdo⟩ := except_bind_eq_ok.mp hab
      obtain ⟨-, hother, -⟩ := Json.updateField_eq_ok hretry
      rw [← hother "do" (by decide)]
      exact rel_listResolves (Json.updateField_eq_ok hdo).2.2
    | iterator =>
      refine rel_bind_field hiterator fun a b hab => ?_
      exact rel_listResolves (Json.updateField_eq_ok hab).2.2
    | branches =>
      refine rel_bind_field hfork fun a b hab => ?_
      unfold resolveBranches at hab
      obtain ⟨_, -, hbranches⟩ := except_bind_eq_ok.mp hab
      exact rel_listResolves (Json.updateField_eq_ok hbranches).2.2

/-- Resolution gives mappings, and keeps the fields it does not put anything in. -/
theorem Resolves.fields {d d' : Json} (h : Resolves use d d') : (∃ fields, d' = .obj fields) ∧
      ∀ name, name ∉ resolvedFields → d'.field? name = d.field? name := by
  obtain ⟨depth, reference, h⟩ := h
  cases depth with
  | zero => cases h
  | succ =>
    obtain ⟨hobj, hother, -⟩ := resolveTask_eq_ok h
    exact ⟨hobj, hother⟩

theorem Resolves.hasTask {d d' : Json} (h : Resolves use d d') {place : Place} {inner : Json}
    (hhas : HasTask d place index name inner) :
    ∃ inner', HasTask d' place index name inner' ∧ Resolves use inner inner' :=
  listHas_resolved (h.place place) hhas

theorem Resolves.hasTask_of_resolved {d d' : Json} (h : Resolves use d d') {place : Place}
    {inner' : Json} (hhas : HasTask d' place index name inner') :
    ∃ inner, HasTask d place index name inner ∧ Resolves use inner inner' :=
  listHas_of_resolved (h.place place) hhas

/-! ## Tasks of workflows -/

/-- A workflow and what resolution makes of it. -/
structure WorkflowResolves (workflow resolved : Json) : Prop where
  tasks : Option.Rel (ListResolves (componentsOf workflow)) (workflow.field? "do")
    (resolved.field? "do")
  functions : ∀ name, Option.Rel (Resolves (componentsOf workflow))
    ((functionsOf workflow).field? name) ((functionsOf resolved).field? name)

theorem functionsOf_field? (workflow : Json) (name : String) :
    (functionsOf workflow).field? name =
      ((workflow.field? "use").bind (Json.field? "functions")).bind (Json.field? name) := by
  unfold functionsOf componentsOf
  cases workflow.field? "use" with
  | none => rfl
  | some use =>
    show ((use.field? "functions").getD (.obj [])).field? name = _
    rw [Option.bind_some]
    cases use.field? "functions" with
    | none => rfl
    | some => rfl

variable {workflow : Json}

theorem resolveComponents_eq_ok (h : resolveComponents depth workflow = .ok resolved) :
    WorkflowResolves workflow resolved := by
  simp only [resolveComponents, except_bind_eq_ok] at h
  obtain ⟨w₁, h₁, _, -, w₂, h₂, h₃⟩ := h
  obtain ⟨-, hother₁, -⟩ := Json.updateField_eq_ok h₁
  obtain ⟨-, hother₂, hdo⟩ := Json.updateField_eq_ok h₂
  obtain ⟨-, hother₃, huse⟩ := Json.updateField_eq_ok h₃
  constructor
  · rw [hother₃ "do" (by decide), ← hother₁ "do" (by decide)]
    exact rel_listResolves hdo
  · intro name
    have hsame : w₂.field? "use" = workflow.field? "use" := by
      rw [hother₂ "use" (by decide), hother₁ "use" (by decide)]
    rw [hsame] at huse
    rw [functionsOf_field?, functionsOf_field?]
    refine rel_bind (rel_bind huse fun a b hab => (Json.updateField_eq_ok hab).2.2)
      fun functions functions' hfunctions => ?_
    unfold resolveFunctions at hfunctions
    obtain ⟨fields, hfields, hfunctions⟩ := except_bind_eq_ok.mp hfunctions
    obtain ⟨resolved, hresolved, hfunctions⟩ := except_bind_eq_ok.mp hfunctions
    cases hfunctions
    cases functions with
    | obj =>
      cases hfields
      exact (fieldsResolve_of_mapM (fun name => ["use", "functions", name]) hresolved).field? name
    | _ => cases hfields

theorem rel_some_left {α β : Type} {r : α → β → Prop} {a : α} {y : Option β}
    (h : Option.Rel r (some a) y) : ∃ b, y = some b ∧ r a b := by
  cases h with
  | some hab => exact ⟨_, rfl, hab⟩

theorem rel_some_right {α β : Type} {r : α → β → Prop} {x : Option α} {b : β}
    (h : Option.Rel r x (some b)) : ∃ a, x = some a ∧ r a b := by
  cases h with
  | some hab => exact ⟨_, rfl, hab⟩

/-- The tasks of what a workflow resolves to are tasks of the workflow, at the same pointers. -/
theorem WorkflowResolves.sourceTask_of_resolved (h : WorkflowResolves workflow resolved)
    {pointer : Pointer} {d' : Json} (hd' : SourceTask resolved pointer name d') :
    ∃ d, SourceTask workflow pointer name d ∧ Resolves (componentsOf workflow) d d' := by
  induction hd' with
  | root hhas' =>
    obtain ⟨d, hhas, hresolves⟩ := listHas_of_resolved h.tasks hhas'
    exact ⟨d, .root hhas, hresolves⟩
  | @function name d' hd' =>
    have hrel := h.functions name
    rw [hd'] at hrel
    obtain ⟨d, hd, hresolves⟩ := rel_some_right hrel
    exact ⟨d, .function hd, hresolves⟩
  | nested _ hhas' ih =>
    obtain ⟨d, hd, hresolves⟩ := ih
    obtain ⟨inner, hhas, hinner⟩ := hresolves.hasTask_of_resolved hhas'
    exact ⟨inner, .nested hd hhas, hinner⟩

end Definitions

/-! ## What the planner reads

The planner finds the tasks of a definition through `_task_scopes`.  It finds those that stand
there, unless a branch of a fork is a task named `do`: it takes such a branch for a body. -/

namespace WorkflowPlan

open Definitions

/-- No branch of a fork of the workflow is a task named `do`. -/
def NoBranchNamedDo (workflow : Json) : Prop :=
  ∀ pointer parent definition index inner, SourceTask workflow pointer parent definition →
    ¬ HasTask definition .branches index "do" inner

/-- A scope nested in a definition: one of the first four places, or a branch of a fork. -/
theorem mem_taskScopes {definition : Json} {nested : NestedScope}
    (h : nested ∈ taskScopes definition) :
    (∃ place, place ≠ Place.branches ∧ place.value definition = some (.arr nested.items) ∧
      nested.suffix = place.suffix ∧ nested.indexed = true) ∨
    ∃ (branches : List Json) (index : ℕ) (branch : Json),
      Place.branches.value definition = some (.arr branches) ∧ branches[index]? = some branch ∧
      nested = ⟨["fork", "branches", toString index], taskBody branch, false⟩ := by
  have hlist : ∀ {value : Option Json} {suffix : List String}, nested ∈ listAt value suffix →
      value = some (.arr nested.items) ∧ nested.suffix = suffix ∧ nested.indexed = true := by
    intro value suffix hmem
    unfold listAt at hmem
    split at hmem
    · obtain rfl := List.mem_singleton.mp hmem
      exact ⟨rfl, rfl, rfl⟩
    · cases hmem
  simp only [taskScopes, List.mem_append] at h
  rcases h with ((((h | h) | h) | h) | h)
  · exact Or.inl ⟨.sequence, by decide, hlist h⟩
  · exact Or.inl ⟨.attempt, by decide, hlist h⟩
  · exact Or.inl ⟨.handler, by decide, hlist h⟩
  · exact Or.inl ⟨.iterator, by decide, hlist h⟩
  · unfold branchScopes at h
    split at h
    · rename_i branches hbranches
      obtain ⟨⟨branch, index⟩, hmem, rfl⟩ := List.mem_map.mp h
      exact Or.inr ⟨branches, index, branch, hbranches, List.mem_zipIdx_iff_getElem?.mp hmem, rfl⟩
    · cases h

/-- A branch that has no task named `do` stands for itself. -/
theorem taskBody_of_no_do {fields : List (String × Json)}
    (h : ∀ inner, ("do", inner) ∉ fields) : taskBody (.obj fields) = [.obj fields] := by
  unfold taskBody
  have hnone : Json.field? "do" (.obj fields) = none := by
    unfold Json.field?
    rw [Option.map_eq_none_iff, List.find?_eq_none]
    intro field hfield hname
    exact h field.2 (by rw [← of_decide_eq_true hname]; exact hfield)
  rw [hnone]
  rfl

/-- The branches of the forks of a definition are mappings without a task named `do`. -/
def PlainBranches (definition : Json) : Prop :=
  ∀ branches, Place.branches.value definition = some (.arr branches) → ∀ branch ∈ branches,
    ∃ fields, branch = .obj fields ∧ ∀ inner, ("do", inner) ∉ fields

/-- After resolution the branches of forks are mappings. -/
theorem plainBranches_of_resolves {use d d' : Json} (h : Resolves use d d')
    (hnames : ∀ index inner, ¬ HasTask d' .branches index "do" inner) : PlainBranches d' := by
  intro branches hbranches branch hbranch
  have hrel := h.place .branches
  rw [hbranches] at hrel
  obtain ⟨list, -, hlist⟩ := rel_some_right hrel
  obtain ⟨index, hindex, rfl⟩ := List.mem_iff_getElem.mp hbranch
  have hget : branches[index]? = some branches[index] := List.getElem?_eq_getElem hindex
  cases list with
  | arr =>
    obtain ⟨items', heq, hall⟩ := hlist.items
    cases heq
    obtain ⟨_, fields, -, hfields, -⟩ := hall.get (hall.length_eq ▸ hindex) hindex
    simp only [List.get_eq_getElem] at hfields
    refine ⟨fields, hfields, fun inner hinner => ?_⟩
    exact hnames index inner ⟨branches, fields, hbranches, hfields ▸ hget, hinner⟩
  | _ => cases hlist.of_not_arr fun _ h => by cases h

theorem plainBranches_of_sourceTask {workflow resolved : Json}
    (h : WorkflowResolves workflow resolved) (hdo : NoBranchNamedDo workflow) {pointer : Pointer}
    {name : String} {d' : Json} (hd' : SourceTask resolved pointer name d') : PlainBranches d' := by
  obtain ⟨d, hd, hresolves⟩ := h.sourceTask_of_resolved hd'
  refine plainBranches_of_resolves hresolves fun index inner hinner => ?_
  obtain ⟨inner₀, hinner₀, -⟩ := hresolves.hasTask_of_resolved hinner
  exact hdo pointer name d index inner₀ hd hinner₀

/-- A task that the planner finds below a definition with plain branches is a task of it, and its
reference goes on from that of the definition by place, position and name. -/
theorem hasTask_of_mem_taskScopes {d : Json} (hplain : PlainBranches d) {nested : NestedScope}
    (h : nested ∈ taskScopes d) {position : ℕ} {name : String} {inner : Json}
    (hitem : nested.items[position]? = some (.obj [(name, inner)])) :
    ∃ place index, HasTask d place index name inner ∧
      ∀ call i parent start, (nestedCall call i parent nested).below
        (start ++ nested.suffix) position name =
          start ++ place.suffix ++ [toString index, name] := by
  rcases mem_taskScopes h with ⟨place, -, hvalue, hsuffix, hindexed⟩ |
    ⟨branches, index, branch, hvalue, hbranch, rfl⟩
  · refine ⟨place, position, ⟨nested.items, _, hvalue, hitem, List.mem_cons_self⟩, ?_⟩
    intro call i parent start
    show (if nested.indexed then _ else _) = _
    rw [if_pos hindexed, hsuffix]
  · obtain ⟨fields, rfl, hdo⟩ := hplain branches hvalue branch (List.mem_of_getElem? hbranch)
    rw [taskBody_of_no_do hdo] at hitem
    cases position with
    | zero =>
      cases hitem
      refine ⟨.branches, index, ⟨branches, _, hvalue, hbranch, List.mem_cons_self⟩, ?_⟩
      intro call i parent start
      show start ++ ["fork", "branches", toString index] ++ [name] = _
      simp [Place.suffix]
    | succ => cases hitem

end WorkflowPlan
