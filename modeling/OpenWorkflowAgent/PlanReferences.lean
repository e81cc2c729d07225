/-
# References of planned tasks

The execution references of a plan are distinct, for any names of tasks and functions.  The
references of the tasks of one scope have the same length and differ in the position or the name;
the references of the scopes below a task go on from that of the task in ways of which none is the
beginning of another (`do`, `try`, `catch/do`, `foreach/do`, `fork/branches/i`, `call`).  So what
stands below different tasks, or in different scopes of one task, never has the same reference, and
escaping keeps different pointers apart.
-/
import OpenWorkflowAgent.ReusableFunctions
import OpenWorkflowAgent.CapabilityValidation

open Transaction Definitions CapabilityValidation

namespace WorkflowPlan

/-! ## What a call of `scope` adds -/

/-- The scopes that a call of `scope` adds to a plan: its own, and those that the calls for its
children add. -/
def Adds (callables : Callables) : ℕ → ScopeCall → List ScopePlan → Prop
  | 0, _, _ => False
  | depth + 1, call, added => ∃ (planned : List PlannedItem) (below : List (List ScopePlan)),
      (call.items.zipIdx.mapM fun item => planItem callables call item.2 item.1) = .ok planned ∧
      List.Forall₂ (Adds callables depth) (planned.flatMap PlannedItem.children) below ∧
      added = ⟨call.reference, call.indexed, planned.map PlannedItem.task⟩ :: below.flatten

variable {callables : Callables} {call : ScopeCall}

variable {depth index : ℕ} {item : Json} {p : Pointer}

theorem adds_of_scope {scopes scopes' : List ScopePlan} {u : Unit}
    (h : (scope callables depth call).run scopes = .ok (u, scopes')) :
    ∃ added, scopes' = scopes ++ added ∧ Adds callables depth call added := by
  induction depth generalizing call scopes scopes' u with
  | zero => exact (throw_eq_ok.mp h).elim
  | succ depth ih =>
    simp only [scope, run_eq_ok] at h
    obtain ⟨planned, hplanned, -, hchildren⟩ := h
    -- the children are run one after the other
    have hall : ∀ {calls : List ScopeCall} {s s' : List ScopePlan} {u : Unit},
        (calls.forM (scope callables depth)).run s = .ok (u, s') →
        ∃ below, s' = s ++ below.flatten ∧ List.Forall₂ (Adds callables depth) calls below := by
      intro calls
      induction calls with
      | nil =>
        intro s s' u hrun
        obtain ⟨-, rfl⟩ := pure_eq_ok.mp hrun
        exact ⟨[], by simp, .nil⟩
      | cons child calls ihcalls =>
        intro s s' u hrun
        have hrun' : (scope callables depth child >>= fun _ =>
            calls.forM (scope callables depth)).run s = .ok (u, s') := hrun
        obtain ⟨_, s₁, hfirst, hrest⟩ := bind_eq_ok.mp hrun'
        obtain ⟨added, rfl, hadded⟩ := ih hfirst
        obtain ⟨below, rfl, hbelow⟩ := ihcalls hrest
        exact ⟨added :: below, by simp, .cons hadded hbelow⟩
    obtain ⟨below, rfl, hbelow⟩ := hall hchildren
    exact ⟨_, by simp, planned, below, hplanned, hbelow, rfl⟩

variable {planned : PlannedItem}

theorem planItem_eq_ok (h : planItem callables call index item = .ok planned) :
    ∃ name fields called, item = .obj [(name, .obj fields)] ∧
      calledScope callables call index name (.obj fields) = .ok called ∧
      planned = ⟨call.plan index name (.obj fields),
        (taskScopes (.obj fields)).map (nestedCall call index name) ++ called⟩ := by
  unfold planItem at h
  split at h
  · rename_i name fields
    unfold planTask at h
    obtain ⟨called, hcalled, h⟩ := except_bind_eq_ok.mp h
    cases h
    exact ⟨name, fields, called, rfl, hcalled, rfl⟩
  · cases h
  · cases h

/-- A task stands in the plan where its scope puts it. -/
theorem executedAt_plan (call : ScopeCall) (index : ℕ) (name : String) (definition : Json) :
    (call.plan index name definition).executedAt = call.taskReference index name := by
  unfold TaskPlan.executedAt ScopeCall.plan
  by_cases hsame : call.sourceReference index name = call.taskReference index name
  · simp [hsame]
  · simp [hsame]

/-! ## Ways on from a reference -/

/-- Neither pointer is the beginning of the other. -/
def Incomparable (p q : Pointer) : Prop := ¬ p <+: q ∧ ¬ q <+: p

instance (p q : Pointer) : Decidable (Incomparable p q) := inferInstanceAs (Decidable (_ ∧ _))

/-- What goes on from incomparable pointers is different. -/
theorem Incomparable.ne {q x y : Pointer} (h : Incomparable p q) : p ++ x ≠ q ++ y := by
  intro heq
  rcases List.prefix_or_prefix_of_prefix (heq ▸ List.prefix_append p x)
    (List.prefix_append q y) with hpq | hqp
  · exact h.1 hpq
  · exact h.2 hqp

/-- Different pointers of the same length stay apart, whatever is put behind them. -/
theorem incomparable_append_of_ne {q : Pointer} (hlength : p.length = q.length) (hne : p ≠ q)
    (x y : Pointer) : Incomparable (p ++ x) (q ++ y) := by
  constructor
  · rintro ⟨z, hz⟩
    rw [List.append_assoc] at hz
    exact hne (List.append_inj_left hz hlength)
  · rintro ⟨z, hz⟩
    rw [List.append_assoc] at hz
    exact hne (List.append_inj_left hz hlength.symm).symm

theorem incomparable_append_left {x y : Pointer} :
    Incomparable (p ++ x) (p ++ y) ↔ Incomparable x y := by
  unfold Incomparable
  rw [List.prefix_append_right_inj, List.prefix_append_right_inj]

variable {value : Option Json} {nested : NestedScope}

theorem suffix_listAt {suffix : List String} (h : nested ∈ listAt value suffix) :
    nested.suffix = suffix := by
  unfold listAt at h
  split at h
  · rw [List.mem_singleton.mp h]
  · cases h

theorem pairwise_listAt {suffix : List String} {r : NestedScope → NestedScope → Prop} :
    (listAt value suffix).Pairwise r := by
  unfold listAt
  split
  · exact List.pairwise_singleton _ _
  · exact List.Pairwise.nil

theorem suffix_branchScopes (h : nested ∈ branchScopes value) : ∃ index : ℕ, nested.suffix =
      ["fork", "branches", toString index] := by
  unfold branchScopes at h
  split at h
  · obtain ⟨branch, -, rfl⟩ := List.mem_map.mp h
    exact ⟨branch.2, rfl⟩
  · cases h

theorem pairwise_zipIdx_ne {α : Type} (l : List α) (k : ℕ) :
    (l.zipIdx k).Pairwise fun a b => a.2 ≠ b.2 := by
  have hindices : ((l.zipIdx k).map Prod.snd).Nodup := by
    rw [List.zipIdx_map_snd]
    exact List.nodup_range'
  exact List.pairwise_map.mp hindices

theorem pairwise_branchScopes (value : Option Json) :
    (branchScopes value).Pairwise fun a b => Incomparable a.suffix b.suffix := by
  unfold branchScopes
  split
  · rename_i branches
    rw [List.pairwise_map]
    refine (pairwise_zipIdx_ne branches 0).imp fun {a b} hab => ?_
    simp [Incomparable, List.cons_prefix_cons, hab, Ne.symm hab]
  · exact List.Pairwise.nil

theorem incomparable_of_head_ne {a b : String} (h : a ≠ b) (x y : Pointer) :
    Incomparable (a :: x) (b :: y) := by
  simp [Incomparable, List.cons_prefix_cons, h, Ne.symm h]

/-- The scopes of a definition go different ways. -/
theorem pairwise_taskScopes (definition : Json) :
    (taskScopes definition).Pairwise fun a b => Incomparable a.suffix b.suffix := by
  simp only [taskScopes, List.pairwise_append]
  refine ⟨⟨⟨⟨pairwise_listAt, pairwise_listAt, ?_⟩, pairwise_listAt, ?_⟩, pairwise_listAt, ?_⟩,
    pairwise_branchScopes _, ?_⟩
  · intro a ha b hb
    rw [suffix_listAt ha, suffix_listAt hb]
    decide
  · intro a ha b hb
    rw [suffix_listAt hb]
    rcases List.mem_append.mp ha with ha | ha
    · rw [suffix_listAt ha]
      decide
    · rw [suffix_listAt ha]
      decide
  · intro a ha b hb
    rw [suffix_listAt hb]
    simp only [List.mem_append] at ha
    rcases ha with (ha | ha) | ha
    · rw [suffix_listAt ha]
      decide
    · rw [suffix_listAt ha]
      decide
    · rw [suffix_listAt ha]
      decide
  · intro a ha b hb
    obtain ⟨index, hb⟩ := suffix_branchScopes hb
    rw [hb]
    simp only [List.mem_append] at ha
    rcases ha with ((ha | ha) | ha) | ha
    · rw [suffix_listAt ha]
      exact incomparable_of_head_ne (by decide) _ _
    · rw [suffix_listAt ha]
      exact incomparable_of_head_ne (by decide) _ _
    · rw [suffix_listAt ha]
      exact incomparable_of_head_ne (by decide) _ _
    · rw [suffix_listAt ha]
      exact incomparable_of_head_ne (by decide) _ _

/-- No scope of a definition goes the way of a call. -/
theorem incomparable_call {definition : Json} (h : nested ∈ taskScopes definition) :
    Incomparable nested.suffix ["call"] := by
  rcases mem_taskScopes h with ⟨place, -, -, hsuffix, -⟩ | ⟨_, index, _, -, -, rfl⟩
  · rw [hsuffix]
    cases place <;> decide
  · exact incomparable_of_head_ne (by decide) _ _

/-! ## Children of a task -/

variable {name : String}

/-- The children of a call: at most one, on the way `call`. -/
theorem reference_calledScope {definition : Json} {called : List ScopeCall}
    (h : calledScope callables call index name definition = .ok called) : called.length ≤ 1 ∧
      ∀ child ∈ called, child.reference = call.taskReference index name ++ ["call"] := by
  unfold calledScope at h
  split at h
  · split at h
    · obtain ⟨_, -, h⟩ := except_bind_eq_ok.mp h
      cases h
      exact ⟨Nat.le_refl 1, fun child hchild => by rw [List.mem_singleton.mp hchild]⟩
    · cases h
      exact ⟨Nat.le_refl 1, fun child hchild => by rw [List.mem_singleton.mp hchild]⟩
    · cases h
      exact ⟨Nat.zero_le 1, fun child hchild => by cases hchild⟩
  · cases h
    exact ⟨Nat.zero_le 1, fun child hchild => by cases hchild⟩

/-- The children of a task go on from its reference in different ways. -/
theorem planItem_children (h : planItem callables call index item = .ok planned) :
    (∀ child ∈ planned.children, ∃ way, way ≠ [] ∧
      child.reference = planned.task.executedAt ++ way) ∧
    planned.children.Pairwise fun a b => Incomparable a.reference b.reference := by
  obtain ⟨name, fields, called, -, hcalled, rfl⟩ := planItem_eq_ok h
  obtain ⟨hlength, hreference⟩ := reference_calledScope hcalled
  constructor
  · intro child hchild
    rw [executedAt_plan]
    rcases List.mem_append.mp hchild with hchild | hchild
    · obtain ⟨nested, hnested, rfl⟩ := List.mem_map.mp hchild
      refine ⟨nested.suffix, ?_, rfl⟩
      intro hnil
      have hincomparable := incomparable_call hnested
      rw [hnil] at hincomparable
      exact hincomparable.1 List.nil_prefix
    · exact ⟨["call"], by decide, hreference child hchild⟩
  · simp only [List.pairwise_append]
    refine ⟨?_, ?_, ?_⟩
    · rw [List.pairwise_map]
      exact (pairwise_taskScopes _).imp fun hab => incomparable_append_left.mpr hab
    · match called, hlength with
      | [], _ => exact List.Pairwise.nil
      | [_], _ => exact List.pairwise_singleton _ _
    · intro a ha b hb
      obtain ⟨nested, hnested, rfl⟩ := List.mem_map.mp ha
      rw [hreference b hb]
      exact incomparable_append_left.mpr (incomparable_call hnested)

/-! ## Accepted scopes -/

def itemNames : Json → List String
  | .obj fields => fields.map Prod.fst
  | _ => []

/-- Validation accepts each scope that is nested in a definition. -/
def AcceptedBelow (checks : OtherCapabilities) (definition : Json) : Prop :=
  ∀ nested ∈ taskScopes definition, ∃ depth start,
    validateScope checks depth start nested.indexed (.arr nested.items) = .ok ()

/-- A call of `scope` for tasks that are accepted: without positions their names are different, and
all that is nested in them is accepted. -/
structure Accepted (checks : OtherCapabilities) (call : ScopeCall) : Prop where
  names : call.indexed = false →
    call.items.Pairwise fun a b => ∀ name ∈ itemNames a, name ∉ itemNames b
  below : ∀ name definition, .obj [(name, definition)] ∈ call.items → AcceptedBelow checks definition

variable {start : Pointer} {indexed : Bool} {checks : OtherCapabilities}

theorem mem_walkItem {item : Json × ℕ} (h : name ∈ itemNames item.1) :
    ∃ task ∈ walkItem start indexed item, task.name = name := by
  obtain ⟨item, index⟩ := item
  cases item with
  | obj fields =>
    obtain ⟨field, hfield, rfl⟩ := List.mem_map.mp h
    exact ⟨_, List.mem_map_of_mem hfield, rfl⟩
  | _ => cases h

theorem accepted_of_validateScope
    (h : validateScope checks depth start indexed (.arr call.items) = .ok ()) :
    Accepted checks call := by
  cases depth with
  | zero => cases h
  | succ depth =>
    obtain ⟨hnodup, hall⟩ := validateScope_eq_ok h
    constructor
    · intro _
      have hpairs := (List.pairwise_flatMap.mp (List.pairwise_map.mp hnodup)).2
      have hitems : (call.items.zipIdx.map Prod.fst).Pairwise
          fun a b => ∀ name ∈ itemNames a, name ∉ itemNames b := by
        rw [List.pairwise_map]
        refine hpairs.imp fun {a b} hab name ha hb => ?_
        obtain ⟨task, htask, hname⟩ := mem_walkItem ha
        obtain ⟨task', htask', hname'⟩ := mem_walkItem hb
        exact hab task htask task' htask' (hname.trans hname'.symm)
      rwa [List.zipIdx_map_fst] at hitems
    · intro name definition hmem nested hnested
      obtain ⟨index, hindex⟩ := List.mem_iff_getElem?.mp hmem
      have hwalked : ⟨(if indexed then start ++ [toString index] else start) ++ [name], name,
          definition⟩ ∈ walkTasks (.arr call.items) start indexed :=
        List.mem_flatMap.mpr ⟨(_, index), List.mem_zipIdx_iff_getElem?.mpr hindex,
          List.mem_singleton.mpr rfl⟩
      exact ⟨depth, _, (hall _ hwalked).2 nested hnested⟩

theorem accepted_of_function {callee : String} {body : Json}
    (hitems : call.items = [.obj [(callee, body)]]) (hbody : AcceptedBelow checks body) :
    Accepted checks call := by
  constructor
  · intro _
    rw [hitems]
    exact List.pairwise_singleton _ _
  · intro name definition hmem
    rw [hitems, List.mem_singleton] at hmem
    cases hmem
    exact hbody

/-- All that the calls of a plan can name is accepted. -/
structure AcceptedCallables (checks : OtherCapabilities) (callables : Callables) : Prop where
  functions : ∀ callee body, callables.functions.field? callee = some body →
    AcceptedBelow checks body
  imports : ∀ callee body, callables.imports.lookup callee = some body → AcceptedBelow checks body

theorem planItem_accepted (hcallables : AcceptedCallables checks callables)
    (h : planItem callables call index item = .ok planned)
    (hbelow : ∀ name definition, item = .obj [(name, definition)] →
      AcceptedBelow checks definition) : ∀ child ∈ planned.children, Accepted checks child := by
  obtain ⟨name, fields, called, rfl, hcalled, rfl⟩ := planItem_eq_ok h
  intro child hchild
  rcases List.mem_append.mp hchild with hchild | hchild
  · obtain ⟨nested, hnested, rfl⟩ := List.mem_map.mp hchild
    obtain ⟨depth, start, hok⟩ := hbelow name _ rfl nested hnested
    exact accepted_of_validateScope hok
  · unfold calledScope at hcalled
    split at hcalled
    · split at hcalled
      · rename_i hbody
        obtain ⟨_, -, hcalled⟩ := except_bind_eq_ok.mp hcalled
        cases hcalled
        cases List.mem_singleton.mp hchild
        exact accepted_of_function rfl (hcallables.functions _ _ hbody)
      · rename_i hbody
        cases hcalled
        cases List.mem_singleton.mp hchild
        exact accepted_of_function rfl (hcallables.imports _ _ hbody)
      · cases hcalled
        cases hchild
    · cases hcalled
      cases hchild

/-! ## Distinct references -/

theorem exists_of_mem_forall₂ {α β : Type} {r : α → β → Prop} {l : List α} {l' : List β}
    (h : List.Forall₂ r l l') {b : β} (hb : b ∈ l') : ∃ a ∈ l, r a b := by
  obtain ⟨index, hlt, rfl⟩ := List.mem_iff_getElem.mp hb
  have hlt' : index < l.length := h.length_eq ▸ hlt
  exact ⟨l[index], List.getElem_mem hlt', h.get hlt' hlt⟩

theorem pairwise_of_forall₂ {α β : Type} {r : α → β → Prop} {s : α → α → Prop} {t : β → β → Prop}
    (hst : ∀ {a a' b b'}, s a a' → r a b → r a' b' → t b b') {l : List α} {l' : List β}
    (h : List.Forall₂ r l l') (hs : l.Pairwise s) : l'.Pairwise t := by
  induction h with
  | nil => exact List.Pairwise.nil
  | @cons a b l l' hab hrest ih =>
    obtain ⟨hfirst, hs⟩ := List.pairwise_cons.mp hs
    refine List.pairwise_cons.mpr ⟨?_, ih hs⟩
    intro b' hb'
    obtain ⟨a', ha', hab'⟩ := exists_of_mem_forall₂ hrest hb'
    exact hst (hfirst a' ha') hab hab'

theorem taskReference_ne {planned : List PlannedItem} (haccepted : Accepted checks call)
    (h : List.Forall₂ (fun item p => planItem callables call item.2 item.1 = .ok p)
      call.items.zipIdx planned) :
    planned.Pairwise fun p q => p.task.executedAt ≠ q.task.executedAt := by
  have hitems : call.items.zipIdx.Pairwise fun a b => a.2 ≠ b.2 ∧
      (call.indexed = false → ∀ name ∈ itemNames a.1, name ∉ itemNames b.1) := by
    refine List.Pairwise.and (pairwise_zipIdx_ne _ _) ?_
    by_cases hindexed : call.indexed = false
    · have hnames := haccepted.names hindexed
      rw [← List.zipIdx_map_fst 0 call.items, List.pairwise_map] at hnames
      exact hnames.imp fun hab _ => hab
    · exact List.pairwise_of_forall fun _ _ hfalse => absurd hfalse hindexed
  refine pairwise_of_forall₂ ?_ h hitems
  rintro ⟨item, index⟩ ⟨item', index'⟩ p q ⟨hne, hnames⟩ hp hq
  obtain ⟨name, fields, _, rfl, -, rfl⟩ := planItem_eq_ok hp
  obtain ⟨name', fields', _, rfl, -, rfl⟩ := planItem_eq_ok hq
  rw [executedAt_plan, executedAt_plan]
  unfold ScopeCall.taskReference ScopeCall.below
  cases hindexed : call.indexed with
  | true =>
    intro heq
    have htail := List.append_cancel_left heq
    rw [List.cons.injEq] at htail
    exact hne (Nat.repr_inj.mp htail.1)
  | false =>
    intro heq
    have htail := List.append_cancel_left heq
    rw [List.cons.injEq] at htail
    have hname := hnames hindexed name (List.mem_singleton.mpr rfl)
    exact hname (List.mem_singleton.mpr htail.1)

theorem length_executedAt (h : planItem callables call index item = .ok planned) :
    planned.task.executedAt.length = call.reference.length + if call.indexed then 2 else 1 := by
  obtain ⟨name, fields, _, -, -, rfl⟩ := planItem_eq_ok h
  rw [executedAt_plan]
  unfold ScopeCall.taskReference ScopeCall.below
  cases call.indexed with
  | true => simp
  | false => simp

theorem prefix_executedAt (h : planItem callables call index item = .ok planned) :
    call.reference <+: planned.task.executedAt := by
  obtain ⟨name, fields, _, -, -, rfl⟩ := planItem_eq_ok h
  rw [executedAt_plan]
  unfold ScopeCall.taskReference ScopeCall.below
  cases call.indexed with
  | true => exact List.prefix_append _ _
  | false => exact List.prefix_append _ _

/-- The children of different tasks of a scope go different ways. -/
theorem pairwise_children {planned : List PlannedItem}
    (hitems : List.Forall₂ (fun item p => planItem callables call item.2 item.1 = .ok p)
      call.items.zipIdx planned)
    (hne : planned.Pairwise fun p q => p.task.executedAt ≠ q.task.executedAt) :
    (planned.flatMap PlannedItem.children).Pairwise
      fun a b => Incomparable a.reference b.reference := by
  have hplanned : ∀ p ∈ planned, ∃ index item, planItem callables call index item = .ok p := by
    intro p hp
    obtain ⟨item, -, hitem⟩ := exists_of_mem_forall₂ hitems hp
    exact ⟨item.2, item.1, hitem⟩
  refine List.pairwise_flatMap.mpr ⟨?_, ?_⟩
  · intro p hp
    obtain ⟨index, item, hitem⟩ := hplanned p hp
    exact (planItem_children hitem).2
  · refine hne.imp_of_mem fun {p q} hp hq hpq a ha b hb => ?_
    obtain ⟨_, _, hitem⟩ := hplanned p hp
    obtain ⟨_, _, hitem'⟩ := hplanned q hq
    obtain ⟨way, -, hway⟩ := (planItem_children hitem).1 a ha
    obtain ⟨way', -, hway'⟩ := (planItem_children hitem').1 b hb
    rw [hway, hway']
    refine incomparable_append_of_ne ?_ hpq way way'
    rw [length_executedAt hitem, length_executedAt hitem']

/-- The tasks that a call of `scope` adds have different references, all below that of the call. -/
def Separate (call : ScopeCall) (added : List ScopePlan) : Prop :=
  (allTasks added).Pairwise (fun t t' => t.executedAt ≠ t'.executedAt) ∧
    ∀ t ∈ allTasks added, call.reference <+: t.executedAt

theorem allTasks_flatten (below : List (List ScopePlan)) :
    allTasks below.flatten = (below.map allTasks).flatten := by
  induction below with
  | nil => rfl
  | cons added below ih =>
    rw [List.flatten_cons, List.map_cons, List.flatten_cons, ← ih]
    exact List.flatMap_append

/-- What stands below a task is longer than the tasks of its scope. -/
theorem separate_of_children {planned : List PlannedItem} {below : List (List ScopePlan)}
    (hitems : List.Forall₂ (fun item p => planItem callables call item.2 item.1 = .ok p)
      call.items.zipIdx planned)
    (hown : planned.Pairwise fun p q => p.task.executedAt ≠ q.task.executedAt)
    (hways : (planned.flatMap PlannedItem.children).Pairwise
      fun a b => Incomparable a.reference b.reference)
    (hbelow : List.Forall₂ Separate (planned.flatMap PlannedItem.children) below) :
    Separate call (⟨call.reference, call.indexed, planned.map PlannedItem.task⟩ ::
      below.flatten) := by
  have hlonger : ∀ t ∈ allTasks below.flatten, call.reference <+: t.executedAt ∧
      call.reference.length + (if call.indexed then 2 else 1) < t.executedAt.length := by
    intro t ht
    rw [allTasks_flatten, List.mem_flatten] at ht
    obtain ⟨_, htasks, ht⟩ := ht
    obtain ⟨added, hadded, rfl⟩ := List.mem_map.mp htasks
    obtain ⟨child, hchild, hseparate⟩ := exists_of_mem_forall₂ hbelow hadded
    obtain ⟨p, hp, hchild⟩ := List.mem_flatMap.mp hchild
    obtain ⟨item, -, hp⟩ := exists_of_mem_forall₂ hitems hp
    obtain ⟨way, hway, hreference⟩ := (planItem_children hp).1 child hchild
    have hprefix := hseparate.2 t ht
    rw [hreference] at hprefix
    have hlength := hprefix.length_le
    rw [List.length_append, length_executedAt hp] at hlength
    have hpos := List.length_pos_iff.mpr hway
    exact ⟨(prefix_executedAt hp).trans ((List.prefix_append _ _).trans hprefix), by omega⟩
  have htasks : ∀ t ∈ planned.map PlannedItem.task, call.reference <+: t.executedAt ∧
      t.executedAt.length = call.reference.length + if call.indexed then 2 else 1 := by
    intro t ht
    obtain ⟨p, hp, rfl⟩ := List.mem_map.mp ht
    obtain ⟨item, -, hp⟩ := exists_of_mem_forall₂ hitems hp
    exact ⟨prefix_executedAt hp, length_executedAt hp⟩
  constructor
  · show (planned.map PlannedItem.task ++ allTasks below.flatten).Pairwise _
    refine List.pairwise_append.mpr ⟨List.pairwise_map.mpr hown, ?_, ?_⟩
    · rw [allTasks_flatten, List.pairwise_flatten]
      refine ⟨?_, ?_⟩
      · intro tasks htasks
        obtain ⟨added, hadded, rfl⟩ := List.mem_map.mp htasks
        obtain ⟨child, -, hseparate⟩ := exists_of_mem_forall₂ hbelow hadded
        exact hseparate.1
      · rw [List.pairwise_map]
        refine pairwise_of_forall₂ ?_ hbelow hways
        intro a a' added added' hincomparable hseparate hseparate' t ht t' ht'
        obtain ⟨x, hx⟩ := hseparate.2 t ht
        obtain ⟨x', hx'⟩ := hseparate'.2 t' ht'
        rw [← hx, ← hx']
        exact hincomparable.ne
    · intro t ht t' ht' heq
      have hlength := (htasks t ht).2
      have hlength' := (hlonger t' ht').2
      rw [heq] at hlength
      omega
  · intro t ht
    rcases List.mem_append.mp (show t ∈ planned.map PlannedItem.task ++ allTasks below.flatten
      from ht) with ht | ht
    · exact (htasks t ht).1
    · exact (hlonger t ht).1

/-- The induction is on how deep the scopes are. -/
theorem separate_of_adds (hcallables : AcceptedCallables checks callables) {added : List ScopePlan}
    (h : Adds callables depth call added) (haccepted : Accepted checks call) :
    Separate call added := by
  induction depth generalizing call added with
  | zero => exact h.elim
  | succ depth ih =>
    obtain ⟨planned, below, hmap, hbelow, rfl⟩ := h
    have hitems := forall₂_of_mapM hmap
    have hown := taskReference_ne haccepted hitems
    have hways := pairwise_children hitems hown
    have hchildren : ∀ child ∈ planned.flatMap PlannedItem.children, Accepted checks child := by
      intro child hchild
      obtain ⟨p, hp, hchild⟩ := List.mem_flatMap.mp hchild
      obtain ⟨item, hitem, hp⟩ := exists_of_mem_forall₂ hitems hp
      refine planItem_accepted hcallables hp ?_ child hchild
      intro name definition heq
      exact haccepted.below name definition (heq ▸ List.fst_mem_of_mem_zipIdx hitem)
    have hseparate : List.Forall₂ Separate (planned.flatMap PlannedItem.children) below :=
      ((List.forall₂_and_left _ _).mpr ⟨hchildren, hbelow⟩).imp fun _ _ hchild => ih hchild.2 hchild.1
    exact separate_of_children hitems hown hways hseparate

/-! ## Plans of accepted workflows -/

theorem acceptedBelow_of_validateScope {body : Json}
    (h : validateScope checks depth start indexed (.arr [.obj [(name, body)]]) = .ok ()) :
    AcceptedBelow checks body := by
  have haccepted : Accepted checks ⟨[.obj [(name, body)]], start, indexed, none, [], none⟩ :=
    accepted_of_validateScope h
  exact haccepted.below name body (List.mem_singleton.mpr rfl)

theorem acceptedCallables_of_validateCapabilities {effective : Json}
    {imports : List (String × Json)} (h : validateCapabilities checks depth effective = .ok ())
    (himports : ∀ field ∈ imports, ∃ name depth,
      validateScope checks depth ["do"] true (.arr [.obj [(name, field.2)]]) = .ok ()) :
    AcceptedCallables checks ⟨functionsOf effective, imports⟩ := by
  simp only [validateCapabilities, except_bind_eq_ok] at h
  obtain ⟨_, -, functions, hfunctions, _, hall, -⟩ := h
  constructor
  · intro callee body hbody
    cases hmapping : functionsOf effective with
    | obj fields =>
      rw [hmapping] at hfunctions hbody
      cases hfunctions
      obtain ⟨field, hfield, rfl⟩ := Option.map_eq_some_iff.mp hbody
      exact acceptedBelow_of_validateScope (forM_eq_ok hall (List.mem_of_find?_eq_some hfield))
    | _ =>
      rw [hmapping] at hbody
      cases hbody
  · intro callee body hbody
    obtain ⟨l₁, l₂, rfl, -⟩ := List.lookup_eq_some_iff.mp hbody
    obtain ⟨name, _, hok⟩ := himports (callee, body) (by simp)
    exact acceptedBelow_of_validateScope hok

theorem rootCall_accepted {effective tasks : Json} {items : List Json}
    (h : validateCapabilities checks depth effective = .ok ())
    (htasks : effective.field? "do" = some tasks) (hitems : tasks.iterate = .ok items) :
    Accepted checks (rootCall items) := by
  simp only [validateCapabilities, except_bind_eq_ok, htasks, Option.getD_some] at h
  obtain ⟨_, hroot, -⟩ := h
  constructor
  · intro hindexed
    cases hindexed
  · intro name definition hmem
    obtain ⟨index, hget⟩ := List.mem_iff_getElem?.mp hmem
    obtain ⟨items', _, harr, -, -⟩ := listHas_of_iterate hitems hget
    cases harr
    cases hitems
    have haccepted : Accepted checks (rootCall items) := accepted_of_validateScope hroot
    exact haccepted.below name definition hmem

theorem normalizeWorkflow_eq_ok {checks : OtherChecks} {order : SetOrder}
    {imports : List (String × Json)} {workflow : Json} {scopes : List ScopePlan}
    (h : normalizeWorkflow checks order imports depth workflow = .ok scopes) :
    ∃ effective tasks items, resolveReusableComponents order depth workflow = .ok effective ∧
      effective.field? "do" = some tasks ∧ tasks.iterate = .ok items ∧
      Adds ⟨functionsOf effective, imports⟩ depth (rootCall items) scopes := by
  simp only [normalizeWorkflow, except_bind_eq_ok] at h
  obtain ⟨_, -, _, -, effective, heffective, _, -, _, hplan, _, -, _, -, hscopes⟩ := h
  cases hscopes
  simp only [planScopes, except_eq_ok] at hplan
  obtain ⟨tasks, htasks, items, hitems, ⟨_, _⟩, hscope, hscopes⟩ := hplan
  cases hscopes
  obtain ⟨added, rfl, hadds⟩ := adds_of_scope hscope
  exact ⟨effective, tasks, items, heffective, htasks, hitems, hadds⟩

/-- The execution references of all tasks in all scopes of the plan of an accepted workflow are
distinct.  An imported function was accepted by itself, when its catalog was loaded. -/
theorem execution_references_distinct (checks : OtherChecks) (capabilities : OtherCapabilities)
    (order : SetOrder) (imports : List (String × Json)) (depth depth' : ℕ)
    (workflow effective : Json) (scopes : List ScopePlan)
    (heffective : resolveReusableComponents order depth workflow = .ok effective)
    (haccepted : validateCapabilities capabilities depth' effective = .ok ())
    (himports : ∀ field ∈ imports, ∃ name depth,
      validateScope capabilities depth ["do"] true (.arr [.obj [(name, field.2)]]) = .ok ())
    (hplan : normalizeWorkflow checks order imports depth workflow = .ok scopes) :
    ((allTasks scopes).map fun task => Pointer.text task.executedAt).Nodup := by
  obtain ⟨_, tasks, items, hresolved, htasks, hitems, hadds⟩ := normalizeWorkflow_eq_ok hplan
  cases heffective.symm.trans hresolved
  have hcallables := acceptedCallables_of_validateCapabilities haccepted himports
  have hroot := rootCall_accepted haccepted htasks hitems
  have hdistinct := (separate_of_adds hcallables hadds hroot).1
  refine List.pairwise_map.mpr (hdistinct.imp fun hne htext => hne ?_)
  exact Pointer.text_injective htext

def noCapabilities : OtherCapabilities where
  profile _ := .ok ()
  data _ _ := .ok ()
  call _ _ := .ok ()
  activity _ _ := .ok ()
  expressions _ := .ok ()

/-- Two calls of one function and one of an imported function, with a slash, a tilde and digits in
the names. -/
def greetings : Json :=
  .obj [("document", sampleDocument),
    ("do", .arr [.obj [("0/~1", .obj [("call", .str "greet/0")])],
      .obj [("1", .obj [("call", .str "greet/0")])],
      .obj [("~0", .obj [("call", .str "tell:1.0@main")])]]),
    ("use", .obj [("functions", .obj [("greet/0", .obj [("fork", .obj [("branches",
      .arr [.obj [("0", .obj [("set", .obj [])])], .obj [("1", .obj [("set", .obj [])])]])])])])])]

/-- The function that the greetings import. -/
def tell : Json := .obj [("do", .arr [.obj [("do", .obj [("set", .obj [])])]])]

/-- The plan of the greetings has all its tasks at references of their own: the three of the
workflow, three of each expansion of the function, and two of the imported one. -/
theorem greetings_distinct :
    ∃ scopes, normalizeWorkflow noChecks foundOrder [("tell:1.0@main", tell)] 6 greetings =
        .ok scopes ∧ (allTasks scopes).length = 11 ∧
      ((allTasks scopes).map fun task => Pointer.text task.executedAt).Nodup := by
  have hlength : (normalizeWorkflow noChecks foundOrder [("tell:1.0@main", tell)] 6
      greetings).toOption.map (fun scopes => (allTasks scopes).length) = some 11 := by
    decide +kernel
  cases hplan : normalizeWorkflow noChecks foundOrder [("tell:1.0@main", tell)] 6 greetings with
  | error e =>
    rw [hplan] at hlength
    cases hlength
  | ok scopes =>
    rw [hplan] at hlength
    refine ⟨scopes, rfl, Option.some.inj hlength, ?_⟩
    refine execution_references_distinct noChecks noCapabilities foundOrder
      [("tell:1.0@main", tell)] 6 6 greetings greetings scopes (by decide +kernel)
      (by decide +kernel) ?_ hplan
    intro field hfield
    rw [List.mem_singleton.mp hfield]
    exact ⟨"tell", 6, by decide +kernel⟩

end WorkflowPlan
