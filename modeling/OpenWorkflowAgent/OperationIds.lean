/-
# Operation ids

The operation id of a task execution is the business key of its action.  It is meant to
name the logical occurrence of the task: the path of the execution without the attempts,
with each visit counted from the start of the enclosing attempt.  The interpreter carries
that occurrence along (`ExecutionState.occurrence`), and `_logical_operation_path` computes
it again from the path and the visit scopes.

Along every run the two agree (`Sound`), but for one thing: the source knows attempts by the
text of a reference, so it also drops the steps of tasks that are called `@attempt` or
`@catch-attempt` themselves.  Two executions therefore have the same id exactly when they are
the same task and their occurrences agree on all other steps, and the ids name the
occurrences exactly when no two occurrences differ in the visits of such a task only.
-/
import OpenWorkflowAgent.TaskReferences
import OpenWorkflowAgent.ExecutionPaths

open Program

namespace Interpreter

variable {W α : Type}

/-! ## Logical paths -/

/-- The steps of an occurrence that the source does not take for attempts. -/
def dropMarked (occurrence : ExecutionPath) : ExecutionPath :=
  occurrence.filter fun step => !endsWithMarker step.1

theorem relativePath_append (scopes : List (Pointer × Visits)) (p q : ExecutionPath) :
    relativePath scopes (p ++ q) = relativePath scopes p ++ relativePath scopes q := by
  simp [relativePath]

/-- The step of an attempt is dropped. -/
theorem relativePath_marker (scopes : List (Pointer × Visits)) (p : ExecutionPath) (r : Pointer)
    {marker : String} (hmarker : marker ∈ attemptMarkers) (n : ℕ) :
    relativePath scopes (p ++ [(r ++ [marker], n)]) = relativePath scopes p := by
  have hends : endsWithMarker (r ++ [marker]) = true := endsWithMarker_append_singleton.mpr hmarker
  rw [relativePath_append]
  simp [relativePath, hends]

theorem baseline_append (scopes : List (Pointer × Visits)) (scope : Pointer × Visits)
    (r : Pointer) :
    baseline (scopes ++ [scope]) r =
      if startsBelow scope.1 r then scope.2.count r else baseline scopes r := by
  unfold baseline
  rw [List.reverse_append, List.reverse_singleton, List.singleton_append, List.find?_cons]
  cases startsBelow scope.1 r <;> rfl

variable {scopes : List (Pointer × Visits)} {r : Pointer} {path : ExecutionPath}
  {env : Environment W} {C : ExecutionState → Prop} {tasks : TaskList}

/-- The visits of a task below the innermost scope are counted from there. -/
theorem baseline_of_last (h : ∀ last ∈ scopes.getLast?, ∃ name rest, r = last.1 ++ name :: rest) :
    baseline scopes r = scopes.getLast?.elim 0 fun scope => scope.2.count r := by
  rcases List.eq_nil_or_concat scopes with rfl | ⟨init, last, rfl⟩
  · rfl
  · rw [List.concat_eq_append] at h ⊢
    have hbelow := startsBelow_iff.mpr (h last (by simp))
    rw [baseline_append, if_pos hbelow]
    simp

/-- What no scope has counted is counted from the start. -/
theorem baseline_of_unknown (h : ∀ scope ∈ scopes, scope.2.count r = 0) :
    baseline scopes r = 0 := by
  unfold baseline
  split
  · rename_i scope hfound
    exact h scope (List.mem_reverse.mp (List.mem_of_find?_eq_some hfound))
  · rfl

/-- A scope that no step of the path is below makes no difference. -/
theorem relativePath_push {scope : Pointer × Visits}
    (h : ∀ step ∈ path, endsWithMarker step.1 = false → startsBelow scope.1 step.1 = false) :
    relativePath (scopes ++ [scope]) path = relativePath scopes path := by
  unfold relativePath
  refine List.map_congr_left fun step hstep => ?_
  obtain ⟨hmem, hplain⟩ := List.mem_filter.mp hstep
  rw [baseline_append, h step hmem (by simpa using hplain)]
  rfl

/-! ## Sound states -/

/-- The path and the occurrence of a state agree; the visit scopes never count more than the
state, and only tasks are counted. -/
structure Sound (durable : Bool) (s : ExecutionState) : Prop where
  logical : relativePath s.visitScopes s.executionPath =
    (dropMarked s.occurrence).map fun step => (step.1, (step.2 : ℤ))
  counted : ∀ step ∈ s.occurrence, 1 ≤ step.2
  baselines : ∀ scope ∈ s.visitScopes, ∀ r, scope.2.count r ≤ s.taskVisits.count r
  known : ∀ r, s.taskVisits.count r ≠ 0 → (ancestry durable r).isSome

/-- The state belongs to a task: its occurrence has the tasks around it. -/
def Placed (durable : Bool) (s : ExecutionState) : Prop :=
  ancestry durable s.executionReference = some (s.occurrence.map Prod.fst)

/-- The state of an attempt: the innermost scope is that of the task. -/
structure Attempting (durable : Bool) (s : ExecutionState) : Prop where
  placed : Placed durable s
  innermost : s.visitScopes.getLast?.map Prod.fst = some s.executionReference

/-- The tasks of a scope fit in a state: each goes on from the occurrence, and is below the
innermost scope. -/
def Fits (durable : Bool) (scope : ScopePlan) (s : ExecutionState) : Prop :=
  ∀ index name,
    ancestry durable (scope.taskReference index name) =
      some (s.occurrence.map Prod.fst ++ [scope.taskReference index name]) ∧
    ∀ last ∈ s.visitScopes.getLast?, ∃ token rest,
      scope.taskReference index name = last.1 ++ token :: rest

section States

variable {durable : Bool} {s s' : ExecutionState}

section

variable (h : Sound durable s)

include h

theorem Sound.congr (hpath : s'.executionPath = s.executionPath)
    (hoccurrence : s'.occurrence = s.occurrence) (hscopes : s'.visitScopes = s.visitScopes)
    (hvisits : s'.taskVisits = s.taskVisits) : Sound durable s' where
  logical := by
    rw [hpath, hoccurrence, hscopes]
    exact h.logical
  counted := by
    rw [hoccurrence]
    exact h.counted
  baselines := by
    rw [hscopes, hvisits]
    exact h.baselines
  known := by
    rw [hvisits]
    exact h.known

/-- Other visits, which count at least what the scopes count. -/
theorem Sound.withVisits (hpath : s'.executionPath = s.executionPath)
    (hoccurrence : s'.occurrence = s.occurrence) (hscopes : s'.visitScopes = s.visitScopes)
    (hbaselines : ∀ scope ∈ s'.visitScopes, ∀ r, scope.2.count r ≤ s'.taskVisits.count r)
    (hknown : ∀ r, s'.taskVisits.count r ≠ 0 → (ancestry durable r).isSome) :
    Sound durable s' where
  logical := by
    rw [hpath, hoccurrence, hscopes]
    exact h.logical
  counted := by
    rw [hoccurrence]
    exact h.counted
  baselines := hbaselines
  known := hknown

/-- Another path with the same logical path. -/
theorem Sound.withPath
    (hpath : relativePath s.visitScopes path = relativePath s.visitScopes s.executionPath)
    (hnew : s'.executionPath = path) (hoccurrence : s'.occurrence = s.occurrence)
    (hscopes : s'.visitScopes = s.visitScopes) (hvisits : s'.taskVisits = s.taskVisits) :
    Sound durable s' where
  logical := by
    rw [hnew, hoccurrence, hscopes, hpath]
    exact h.logical
  counted := by
    rw [hoccurrence]
    exact h.counted
  baselines := by
    rw [hscopes, hvisits]
    exact h.baselines
  known := by
    rw [hvisits]
    exact h.known

/-- `_logical_operation_path` gives the occurrence, without the steps it takes for attempts. -/
theorem Sound.logicalOperationPath_eq : logicalOperationPath s = .ok (dropMarked s.occurrence) := by
  have hpositive : ((dropMarked s.occurrence).map fun step => (step.1, (step.2 : ℤ))).any
      (fun step => decide (step.2 < 1)) = false := by
    rw [List.any_eq_false]
    rintro step hstep
    obtain ⟨original, horiginal, rfl⟩ := List.mem_map.mp hstep
    have := h.counted original (List.mem_filter.mp horiginal).1
    simp only [decide_eq_true_eq]
    omega
  unfold logicalOperationPath
  rw [h.logical]
  simp only [hpositive, Bool.false_eq_true, if_false, List.map_map]
  refine congrArg Except.ok ?_
  conv_rhs => rw [← List.map_id (dropMarked s.occurrence)]
  exact List.map_congr_left fun step _ => by simp

/-- The references of the path, without the attempts, are those of tasks around. -/
theorem Sound.length_le (hplaced : Placed durable s) {step : Pointer × ℕ}
    (hstep : step ∈ s.executionPath) (hplain : endsWithMarker step.1 = false) :
    step.1.length ≤ s.executionReference.length := by
  have hfst := congrArg (List.map Prod.fst) h.logical
  have hmem : step.1 ∈ (relativePath s.visitScopes s.executionPath).map Prod.fst := by
    unfold relativePath
    rw [List.map_map, List.mem_map]
    exact ⟨step, List.mem_filter.mpr ⟨hstep, by simp [hplain]⟩, rfl⟩
  rw [hfst, List.map_map, List.mem_map] at hmem
  obtain ⟨original, horiginal, hsame⟩ := hmem
  have hold : original.1 ∈ s.occurrence.map Prod.fst :=
    List.mem_map.mpr ⟨original, (List.mem_filter.mp horiginal).1, rfl⟩
  rw [← hsame]
  exact length_le_of_mem_ancestry hplaced hold

/-- The own scope of a task makes no difference to its logical path. -/
theorem Sound.relativePath_own (hplaced : Placed durable s) (scopes : List (Pointer × Visits))
    (V : Visits) :
    relativePath (scopes ++ [(s.executionReference, V)]) s.executionPath =
      relativePath scopes s.executionPath := by
  refine relativePath_push fun step hstep hplain => ?_
  have hle := h.length_le hplaced hstep hplain
  cases hbelow : startsBelow s.executionReference step.1 with
  | false => rfl
  | true =>
    obtain ⟨name, rest, hlonger⟩ := startsBelow_iff.mp hbelow
    have := congrArg List.length hlonger
    simp only [List.length_append, List.length_cons] at this
    omega

theorem Sound.push (hplaced : Placed durable s) :
    Sound durable { s with visitScopes := s.visitScopes ++ [(s.executionReference, s.taskVisits)] }
    where
  logical := (h.relativePath_own hplaced _ _).trans h.logical
  counted := h.counted
  baselines := by
    intro scope hscope r
    rcases List.mem_append.mp hscope with hscope | hscope
    · exact h.baselines scope hscope r
    · rw [List.mem_singleton.mp hscope]
  known := h.known

theorem Sound.pop {V : Visits} (hplaced : Placed durable s)
    (hscopes : s.visitScopes = scopes ++ [(s.executionReference, V)]) :
    Sound durable { s with visitScopes := scopes } where
  logical := by
    have hlogical := h.logical
    rw [hscopes, h.relativePath_own hplaced] at hlogical
    exact hlogical
  counted := h.counted
  baselines := by
    intro scope hscope r
    exact h.baselines scope (by rw [hscopes]; exact List.mem_append_left _ hscope) r
  known := h.known

end

theorem Attempting.push (hplaced : Placed durable s) :
    Attempting durable
      { s with visitScopes := s.visitScopes ++ [(s.executionReference, s.taskVisits)] } :=
  ⟨hplaced, by simp⟩

/-- The tasks of a scope of the task fit in the state of its attempt.  `events` is the step of an
event, for the tasks of a durable listener. -/
theorem fits_of_attempting {scope : ScopePlan} (h : Attempting durable s) (s' : ExecutionState)
    (events : List Pointer) (tail : ℕ → String → Pointer) (hscopes : s'.visitScopes = s.visitScopes)
    (hoccurrence : s'.occurrence.map Prod.fst = s.occurrence.map Prod.fst ++ events)
    (htail : ∀ index name,
      scope.taskReference index name = s.executionReference ++ tail index name ∧
      tail index name ≠ [] ∧
      tasksAfter durable s.executionReference (tail index name) =
        some (events ++ [s.executionReference ++ tail index name])) :
    Fits durable scope s' := by
  intro index name
  obtain ⟨href, hne, htasks⟩ := htail index name
  refine ⟨?_, ?_⟩
  · rw [href, ancestry_append h.placed, htasks, hoccurrence]
    simp
  · intro last hlast
    have hinnermost := h.innermost
    rw [← hscopes, hlast, Option.map_some, Option.some_inj] at hinnermost
    obtain ⟨token, rest, hcons⟩ := List.exists_cons_of_ne_nil hne
    exact ⟨token, rest, by rw [href, hcons, hinnermost]⟩

end States

/-! ## What a run keeps -/

/-- The id of an execution is the key of its occurrence, without the steps that are taken for
attempts. -/
structure Good (env : Environment W) (e : Execution) : Prop where
  key : operationKey env e.reference (dropMarked e.occurrence) = .ok e.operationId
  chain : ancestry env.durable e.reference = some (e.occurrence.map Prod.fst)
  counted : ∀ step ∈ e.occurrence, 1 ≤ step.2

/-- The place of the task stays, the state stays sound, and every new execution is good. -/
structure Kept (env : Environment W) (m m' : Machine W) : Prop where
  sound : Sound env.durable m'.frame
  occurrence : m'.frame.occurrence = m.frame.occurrence
  reference : m'.frame.executionReference = m.frame.executionReference
  scopes : m'.frame.visitScopes = m.frame.visitScopes
  good : ∀ e ∈ m'.executions, e ∈ m.executions ∨ Good env e

namespace Kept

variable {env : Environment W} {m m₁ m₂ : Machine W}

theorem trans (h : Kept env m m₁) (h' : Kept env m₁ m₂) : Kept env m m₂ where
  sound := h'.sound
  occurrence := h'.occurrence.trans h.occurrence
  reference := h'.reference.trans h.reference
  scopes := h'.scopes.trans h.scopes
  good := fun e he => (h'.good e he).elim (h.good e) Or.inr

theorem of_quiet (hsound : Sound env.durable m.frame) (h : Quiet m m₁) : Kept env m m₁ where
  sound := hsound.congr h.path h.occurrence h.scopes h.visits
  occurrence := h.occurrence
  reference := h.reference
  scopes := h.scopes
  good := fun e he => Or.inl (by
    unfold Machine.executions at he ⊢
    rwa [h.trace] at he)

theorem placed (h : Kept env m m₁) (hplaced : Placed env.durable m.frame) :
    Placed env.durable m₁.frame := by
  unfold Placed
  rw [h.reference, h.occurrence]
  exact hplaced

theorem attempting (h : Kept env m m₁) (hattempting : Attempting env.durable m.frame) :
    Attempting env.durable m₁.frame :=
  ⟨h.placed hattempting.placed, by rw [h.scopes, h.reference]; exact hattempting.innermost⟩

theorem fits {scope : ScopePlan} (h : Kept env m m₁) (hfits : Fits env.durable scope m.frame) :
    Fits env.durable scope m₁.frame := by
  unfold Fits
  rw [h.occurrence, h.scopes]
  exact hfits

/-- A piece in a state of its own, whose visits are taken back. -/
theorem takeVisits {child s : ExecutionState} (hsound : Sound env.durable m.frame)
    (h : Kept env (m.withFrame child) m₁) (hchild : child.visitScopes = m.frame.visitScopes)
    (hpath : s.executionPath = m.frame.executionPath)
    (hoccurrence : s.occurrence = m.frame.occurrence)
    (hreference : s.executionReference = m.frame.executionReference)
    (hscopes : s.visitScopes = m.frame.visitScopes)
    (hvisits : s.taskVisits = m₁.frame.taskVisits) : Kept env m (m₁.withFrame s) where
  sound := by
    have hleft : m₁.frame.visitScopes = m.frame.visitScopes := h.scopes.trans hchild
    refine hsound.withVisits hpath hoccurrence hscopes ?_ ?_
    · show ∀ scope ∈ s.visitScopes, ∀ r, scope.2.count r ≤ s.taskVisits.count r
      rw [hscopes, hvisits, ← hleft]
      exact h.sound.baselines
    · show ∀ r, s.taskVisits.count r ≠ 0 → _
      rw [hvisits]
      exact h.sound.known
  occurrence := hoccurrence
  reference := hreference
  scopes := hscopes
  good := h.good

/-- A piece in a state of its own that is dropped. -/
theorem drop {child : ExecutionState} (h : Kept env (m.withFrame child) m₁) (m₂ : Machine W)
    (hsound : Sound env.durable m.frame) (hframe : m₂.frame = m.frame)
    (htrace : m₂.trace = m₁.trace) : Kept env m m₂ where
  sound := by
    rw [hframe]
    exact hsound
  occurrence := by rw [hframe]
  reference := by rw [hframe]
  scopes := by rw [hframe]
  good := fun e he => h.good e (by
    unfold Machine.executions at he ⊢
    rwa [htrace] at he)

end Kept

/-- From sound states that meet `C`, every run of the program keeps. -/
def Keeps (env : Environment W) (C : ExecutionState → Prop) (m m' : Machine W) : Prop :=
  Sound env.durable m.frame → C m.frame → Kept env m m'

theorem Keeps.of_quiet {m m' : Machine W} (h : Quiet m m') :
    Keeps env C m m' := fun hsound _ => Kept.of_quiet hsound h

section Preorders

theorem Keeps.trans {m₁ m₂ m₃ : Machine W} (hC : ∀ {m m'}, Kept env m m' → C m.frame → C m'.frame)
    (h : Keeps env C m₁ m₂) (h' : Keeps env C m₂ m₃) : Keeps env C m₁ m₃ := fun hsound hc =>
  have hfirst := h hsound hc
  hfirst.trans (h' hfirst.sound (hC hfirst hc))

theorem absorbs_keeps (hC : ∀ {m m'}, Kept env m m' → C m.frame → C m'.frame) :
    Absorbs (Keeps env C) :=
  Absorbs.of_preorder Keeps.of_quiet (Keeps.trans hC)

end Preorders

/-- The note of an attempt of a block is no execution. -/
theorem keeps_record {entry : Entry} (h : entry.execution? = none) :
    Leads (record entry) (Keeps env C) := by
  intro m hsound _
  refine ⟨hsound, rfl, rfl, rfl, fun e he => Or.inl ?_⟩
  have hsame : (final (record entry) m).executions = m.executions := by
    show List.filterMap Entry.execution? (m.trace ++ [entry]) = _
    rw [List.filterMap_append]
    simp [h, Machine.executions]
  rwa [hsame] at he

theorem Keeps.of_placed {m m' : Machine W} (h : Keeps env (Placed env.durable) m m') :
    Keeps env (Attempting env.durable) m m' :=
  fun hsound hattempting => h hsound hattempting.placed

/-! ## The pieces of a run -/

section Pieces

variable {m m' left : Machine W} {k : ℕ}

/-- An attempt has a visit scope of its own. -/
theorem Keeps.push (h : Keeps env (Attempting env.durable) (m.withFrame { m.frame with
      visitScopes := m.frame.visitScopes ++ [(m.frame.executionReference, m.frame.taskVisits)] })
      left) :
    Keeps env (Placed env.durable) m
      (left.withFrame { left.frame with visitScopes := m.frame.visitScopes }) := by
  intro hsound hplaced
  have hbody := h (hsound.push hplaced) (Attempting.push hplaced)
  refine ⟨hbody.sound.pop (V := m.frame.taskVisits) (hbody.placed hplaced) ?_, hbody.occurrence,
    hbody.reference, rfl, hbody.good⟩
  rw [hbody.scopes, hbody.reference]
  rfl

abbrev keeping (env : Environment W) (plan : ScopePlan) : Change W := Keeps env (Fits env.durable plan)

/-- A body in the state of an attempt. -/
theorem Keeps.body {suffix : List String} (hsuffix : suffix ∈ [["do"], ["try"], ["catch", "do"]])
    (h : keeping env ⟨tasks, nestedReference m.frame suffix, true⟩ m m') :
    Keeps env (Attempting env.durable) m m' := by
  intro hsound hattempting
  refine h hsound (fits_of_attempting hattempting m.frame []
    (fun index name => suffix ++ [toString index, name]) rfl (List.append_nil _).symm
    fun index name => ⟨?_, by simp, ?_⟩)
  · simp [ScopePlan.taskReference, nestedReference]
  · fin_cases hsuffix <;> rfl

theorem Iterates.kept (h : Iterates (keeping env) m left) (hsound : Sound env.durable m.frame)
    (hattempting : Attempting env.durable m.frame) :
    ∃ child, child.visitScopes = m.frame.visitScopes ∧ Kept env (m.withFrame child) left := by
  obtain ⟨body, child, hquiet, hkeeps⟩ := h
  refine ⟨child, hquiet.scopes, hkeeps (hsound.congr hquiet.path hquiet.occurrence hquiet.scopes
    hquiet.visits) ?_⟩
  refine fits_of_attempting hattempting child [] (fun index name => ["do", toString index, name])
    hquiet.scopes ?_ fun index name => ⟨?_, by simp, rfl⟩
  · rw [List.append_nil]
    exact congrArg _ hquiet.occurrence
  · have hreference : child.executionReference = m.frame.executionReference := hquiet.reference
    simp [ScopePlan.taskReference, nestedReference, hreference]

theorem Iterates.keeps (h : Iterates (keeping env) m left) :
    Keeps env (Attempting env.durable) m (m.iterated left) := by
  intro hsound hattempting
  obtain ⟨child, hscopes, hkept⟩ := h.kept hsound hattempting
  exact Kept.takeVisits hsound hkept hscopes rfl rfl rfl rfl rfl

theorem Iterates.drops (h : Iterates (keeping env) m left) :
    Keeps env (Attempting env.durable) m (left.withFrame m.frame) := by
  intro hsound hattempting
  obtain ⟨child, -, hkept⟩ := h.kept hsound hattempting
  exact hkept.drop _ hsound rfl rfl

/-- The tasks of a branch or a function run in a state that is dropped. -/
theorem Keeps.dropped {suffix : List String} {child : ExecutionState}
    (h : keeping env ⟨tasks, nestedReference m.frame suffix, false⟩ (m.withFrame child) left)
    (hquiet : Quiet m (m.withFrame child))
    (hsuffix : ∀ name, tasksAfter env.durable m.frame.executionReference (suffix ++ [name]) =
      some [m.frame.executionReference ++ (suffix ++ [name])]) (hframe : m'.frame = m.frame)
    (htrace : m'.trace = left.trace) : Keeps env (Attempting env.durable) m m' := by
  intro hsound hattempting
  refine (h (hsound.congr hquiet.path hquiet.occurrence hquiet.scopes hquiet.visits) ?_).drop m'
    hsound hframe htrace
  refine fits_of_attempting hattempting child [] (fun _ name => suffix ++ [name]) hquiet.scopes ?_
    fun index name => ⟨?_, by simp, hsuffix name⟩
  · rw [List.append_nil]
    exact congrArg _ hquiet.occurrence
  · simp [ScopePlan.taskReference, nestedReference]

/-- The state for an event is sound: the event is a step of the path and of the occurrence. -/
theorem sound_itemState (iterator : IteratorSettings) (k : ℕ) (value : Json) {s : ExecutionState}
    (hsound : Sound env.durable s) (hplaced : Placed env.durable s) :
    Sound env.durable (itemState env iterator (k + 1) value s) := by
  cases hdurable : env.durable with
  | false =>
    rw [hdurable] at hsound
    have hmarker (p : ExecutionPath) : p ++ (if env.durable then
        [(s.executionReference ++ ["@event"], k + 1)] else []) = p := by simp [hdurable]
    exact hsound.congr (hmarker _) (hmarker _) rfl rfl
  | true =>
    have hplain : endsWithMarker (s.executionReference ++ ["@event"]) = false := by
      rw [Bool.eq_false_iff]
      intro h
      exact absurd (endsWithMarker_append_singleton.mp h) (by decide)
    -- the reference of the event is not that of a task, so nobody has counted it
    have hnone := ancestry_event hplaced
    have hzero : s.taskVisits.count (s.executionReference ++ ["@event"]) = 0 := by
      by_contra hne
      have hsome := hsound.known _ hne
      rw [hnone] at hsome
      cases hsome
    have hbaseline : baseline s.visitScopes (s.executionReference ++ ["@event"]) = 0 :=
      baseline_of_unknown fun scope hscope =>
        Nat.le_zero.mp (hzero ▸ hsound.baselines scope hscope _)
    have hmarker (p : ExecutionPath) : p ++ (if env.durable then
        [(s.executionReference ++ ["@event"], k + 1)] else []) =
        p ++ [(s.executionReference ++ ["@event"], k + 1)] := by simp [hdurable]
    rw [hdurable] at hsound
    refine ⟨?_, ?_, hsound.baselines, hsound.known⟩
    · show relativePath s.visitScopes (s.executionPath ++ _) =
        (dropMarked (s.occurrence ++ _)).map _
      rw [hmarker, hmarker, relativePath_append, hsound.logical]
      simp [relativePath, dropMarked, hplain, hbaseline]
    · intro step hstep
      have hmem : step ∈ s.occurrence ++ [(s.executionReference ++ ["@event"], k + 1)] :=
        hmarker s.occurrence ▸ hstep
      rcases List.mem_append.mp hmem with hold | hnew
      · exact hsound.counted step hold
      · rw [List.mem_singleton.mp hnew]
        omega

section

variable (h : Handles env (keeping env) k m left)

include h

theorem Handles.kept (hsound : Sound env.durable m.frame)
    (hattempting : Attempting env.durable m.frame) :
    ∃ child, child.visitScopes = m.frame.visitScopes ∧ Kept env (m.withFrame child) left := by
  obtain ⟨iterator, body, value, hkeeps⟩ := h
  refine ⟨itemState env iterator (k + 1) value m.frame, rfl,
    hkeeps (sound_itemState iterator k value hsound hattempting.placed) ?_⟩
  refine fits_of_attempting hattempting _
    (if env.durable then [m.frame.executionReference ++ ["@event"]] else [])
    (fun index name => ["foreach", "do", toString index, name]) rfl ?_ fun index name => ⟨?_, by simp, ?_⟩
  · show (m.frame.occurrence ++ _).map Prod.fst = _
    cases env.durable <;> simp
  · show nestedReference _ ["foreach", "do"] ++ [toString index, name] = _
    simp [nestedReference]
    rfl
  · simp [tasksAfter]

theorem Handles.keeps : Keeps env (Attempting env.durable) m (m.handled left) := by
  intro hsound hattempting
  obtain ⟨child, hscopes, hkept⟩ := h.kept hsound hattempting
  exact Kept.takeVisits hsound hkept hscopes rfl rfl rfl rfl rfl

theorem Handles.drops : Keeps env (Attempting env.durable) m (left.withFrame m.frame) := by
  intro hsound hattempting
  obtain ⟨child, -, hkept⟩ := h.kept hsound hattempting
  exact hkept.drop _ hsound rfl rfl

end

/-- From states whose logical path is that of `path`. -/
def Replaces (env : Environment W) (C : ExecutionState → Prop) (path : ExecutionPath)
    (m m' : Machine W) : Prop :=
  relativePath m.frame.visitScopes path = relativePath m.frame.visitScopes m.frame.executionPath →
    Keeps env C m m'

/-- An attempt starts from the path of the task with a step that is dropped. -/
theorem Kept.marked {marker : String} (hmarker : marker ∈ attemptMarkers)
    (hsound : Sound env.durable m.frame) (hpath : relativePath m.frame.visitScopes path =
      relativePath m.frame.visitScopes m.frame.executionPath)
    (hnew : m'.frame.executionPath = path ++ [(r ++ [marker], k)])
    (hoccurrence : m'.frame.occurrence = m.frame.occurrence)
    (hreference : m'.frame.executionReference = m.frame.executionReference)
    (hscopes : m'.frame.visitScopes = m.frame.visitScopes)
    (hvisits : m'.frame.taskVisits = m.frame.taskVisits) (htrace : m'.trace = m.trace) :
    Kept env m m' where
  sound := hsound.withPath ((relativePath_marker _ _ _ hmarker _).trans hpath) hnew hoccurrence
    hscopes hvisits
  occurrence := hoccurrence
  reference := hreference
  scopes := hscopes
  good e he := Or.inl (by
    unfold Machine.executions at he ⊢
    rwa [htrace] at he)

theorem Kept.relativePath_eq (h : Kept env m m') (hsound : Sound env.durable m.frame)
    (hpath : relativePath m.frame.visitScopes path =
      relativePath m.frame.visitScopes m.frame.executionPath) :
    relativePath m'.frame.visitScopes path =
      relativePath m'.frame.visitScopes m'.frame.executionPath := by
  rw [h.sound.logical, h.scopes, h.occurrence, hpath]
  exact hsound.logical

theorem Replaces.trans {m₁ : Machine W} (hC : ∀ {m m'}, Kept env m m' → C m.frame → C m'.frame)
    (h : Replaces env C path m m₁) (h' : Replaces env C path m₁ m') :
    Replaces env C path m m' := fun hpath hsound hc =>
  have hfirst := h hpath hsound hc
  hfirst.trans (h' (hfirst.relativePath_eq hsound hpath) hfirst.sound (hC hfirst hc))

theorem Replaces.block {received : ExecutionState}
    (h : Keeps env (Attempting env.durable) (blockStart received k m) m') :
    Replaces env (Attempting env.durable) received.executionPath m m' := by
  intro hpath hsound hattempting
  have hmarked : Kept env m (blockStart received k m) :=
    Kept.marked (by decide) hsound hpath rfl rfl rfl rfl rfl rfl
  exact hmarked.trans (h hmarked.sound (hmarked.attempting hattempting))

theorem Replaces.attempt {input : Json}
    (h : Keeps env (Placed env.durable) (attemptStart path input k m) m') :
    Replaces env (Placed env.durable) path m m' := by
  intro hpath hsound hplaced
  have hmarked : Kept env m (attemptStart path input k m) :=
    Kept.marked (by decide) hsound hpath rfl rfl rfl rfl rfl rfl
  exact hmarked.trans (h hmarked.sound (hmarked.placed hplaced))

theorem keeps_runAttempts {nested : ScopePlan → Exec W Unit}
    (hnested : ∀ plan, Leads (nested plan) (keeping env plan)) (body handler : TaskList)
    (clause : CatchSettings) (rounds : ℕ) (m : Machine W) :
    Keeps env (Attempting env.durable) m
      (final (runAttempts env nested body clause handler m.frame rounds 0) m) := by
  refine leads_runAttempts env (A := fun _ => Replaces env (Attempting env.durable)
    m.frame.executionPath) (absorbs_keeps Kept.attempting) (Keeps.trans Kept.attempting)
    (fun _ _ hsuffix m => Keeps.body (List.mem_cons_of_mem _ hsuffix) (hnested _ m)) keeps_record
    (fun hx m => ?_) (fun _ m _ => Keeps.of_quiet (Quiet.refl m)) Replaces.block
    (fun h h' => (Replaces.block h).trans Kept.attempting h') body handler clause rounds 0 m rfl
  rw [final_operationVisitScope]
  exact (hx _).push.of_placed

theorem keeps_execution {operation : String} (hoperation : operationId env m.frame = .ok operation)
    (h : Keeps env (Placed env.durable) { m with trace := m.trace ++ [.executes
      ⟨m.frame.executionPath, m.frame.occurrence, m.frame.executionReference, operation⟩] } m') :
    Keeps env (Placed env.durable) m m' := by
  intro hsound hplaced
  set execution : Execution :=
    ⟨m.frame.executionPath, m.frame.occurrence, m.frame.executionReference, operation⟩
  have hgood : Good env execution := by
    refine ⟨?_, hplaced, hsound.counted⟩
    unfold operationId at hoperation
    rw [hsound.logicalOperationPath_eq] at hoperation
    exact hoperation
  have hrecord : Kept env m { m with trace := m.trace ++ [.executes execution] } := by
    refine ⟨hsound, rfl, rfl, rfl, fun e he => ?_⟩
    have hexecutions : e ∈ m.executions ++ [execution] := by
      unfold Machine.executions at he ⊢
      simpa [Entry.execution?] using he
    rcases List.mem_append.mp hexecutions with he | he
    · exact Or.inl he
    · rw [List.mem_singleton.mp he]
      exact Or.inr hgood
  exact hrecord.trans (h hrecord.sound hplaced)

theorem kept_counted {plan : ScopePlan} (index : ℕ) (name : String)
    (hsound : Sound env.durable m.frame) (hfits : Fits env.durable plan m.frame) :
    Kept env m (m.counted (plan.taskReference index name)) := by
  refine ⟨hsound.withVisits rfl rfl rfl ?_ fun r hr => ?_, rfl, rfl, rfl, fun e he => Or.inl he⟩
  · exact fun s hs r => (hsound.baselines s hs r).trans (count_le_counted _ r)
  · by_cases h : r = plan.taskReference index name
    · rw [h, (hfits index name).1]
      rfl
    · refine hsound.known r ?_
      rwa [Machine.counted, Machine.withFrame, Visits.count_put_ne _ _ h] at hr

/-- A task of a scope: its occurrence counts its visit from the innermost scope on. -/
theorem sound_child {plan : ScopePlan} (index : ℕ) (name : String)
    (hsound : Sound env.durable m.frame) (hfits : Fits env.durable plan m.frame) :
    Sound env.durable (childOf env name (plan.taskReference index name) m).frame ∧
      Placed env.durable (childOf env name (plan.taskReference index name) m).frame := by
  have hcounted := kept_counted index name hsound hfits
  obtain ⟨hancestry, hbelow⟩ := hfits index name
  set execution := plan.taskReference index name
  have hbase : baseline m.frame.visitScopes execution = _ := baseline_of_last hbelow
  set V := m.frame.taskVisits
  set base := m.frame.visitScopes.getLast?.elim 0 fun scope => scope.2.count execution with hbaseDef
  have hbaseLe : base ≤ V.count execution := by
    rw [hbaseDef]
    cases hlast : m.frame.visitScopes.getLast? with
    | none => exact Nat.zero_le _
    | some last => exact hsound.baselines last (List.mem_of_getLast? hlast) execution
  refine ⟨⟨?_, ?_, hcounted.sound.baselines, hcounted.sound.known⟩, ?_⟩
  · show relativePath m.frame.visitScopes
        (m.frame.executionPath ++ [(execution, V.count execution + 1)]) =
      (dropMarked (m.frame.occurrence ++ [(execution, V.count execution + 1 - base)])).map _
    rw [relativePath_append, hsound.logical]
    cases hmarked : endsWithMarker execution with
    | true => simp [relativePath, dropMarked, hmarked]
    | false =>
      have hint : ((V.count execution + 1 - base : ℕ) : ℤ) =
          ((V.count execution + 1 : ℕ) : ℤ) - (base : ℤ) := by omega
      simp only [relativePath, dropMarked, List.filter_append, List.map_append]
      simp only [hmarked, Bool.not_false, List.filter_cons_of_pos, List.filter_nil, List.map_cons,
        List.map_nil, hbase, hint]
  · intro step hstep
    have hmem : step ∈ m.frame.occurrence ++ [(execution, V.count execution + 1 - base)] := hstep
    rcases List.mem_append.mp hmem with hold | hnew
    · exact hsound.counted step hold
    · rw [List.mem_singleton.mp hnew]
      show 1 ≤ V.count execution + 1 - base
      omega
  · show ancestry env.durable execution = some ((m.frame.occurrence ++ [_]).map Prod.fst)
    rw [hancestry, List.map_append]
    rfl

end Pieces

def occurrenceWalk (env : Environment W) : Walk env where
  scope := keeping env
  inside := Keeps env (Attempting env.durable)
  pushed := Keeps env (Placed env.durable)
  task := Keeps env (Placed env.durable)
  loop := Keeps env (Attempting env.durable)
  branch _ := Keeps env (Attempting env.durable)
  event _ := Keeps env (Attempting env.durable)
  attempt := Keeps env (Placed env.durable)
  policy path _ := Replaces env (Placed env.durable) path
  absorbs_scope := fun _ => absorbs_keeps Kept.fits
  scope_trans := Keeps.trans Kept.fits
  absorbs_inside := absorbs_keeps Kept.attempting
  absorbs_task := absorbs_keeps Kept.placed
  absorbs_attempt := absorbs_keeps Kept.placed
  body hsuffix h := h.body (List.mem_append_left [["catch", "do"]] hsuffix)
  absorbs_loop := absorbs_keeps Kept.attempting
  loop_failed h := h.drops
  loop_next h h' := h.keeps.trans Kept.attempting h'
  loop_inside h := h
  absorbs_branch _ := absorbs_keeps Kept.attempting
  branch_next {_ _ m _ left} h h' :=
    have hdropped : Keeps env (Attempting env.durable) m { left with
        frame := m.frame
        flow := m.flow } := h.dropped ⟨rfl, rfl, rfl, rfl, rfl, rfl⟩ (fun _ => rfl) rfl rfl
    hdropped.trans Kept.attempting h'
  branch_inside h := h
  call h := h.dropped ⟨rfl, rfl, rfl, rfl, rfl, rfl⟩ (fun _ => rfl) rfl rfl
  absorbs_event _ := absorbs_keeps Kept.attempting
  event_skip h := h
  event_failed h := h.drops
  event_done h := h.keeps
  event_next _ h h' := h.keeps.trans Kept.attempting h'
  event_inside h := h
  guarded hnested := keeps_runAttempts hnested
  push h := h.push
  execution := keeps_execution
  policy_done := Replaces.attempt
  policy_next h h' := (Replaces.attempt h).trans Kept.placed h'
  policy_task h := h rfl
  item_counted hsound hfits := kept_counted _ _ hsound hfits
  item_failed h hsound hfits :=
    have hcounted := kept_counted _ _ hsound hfits
    have hchild := sound_child _ _ hsound hfits
    hcounted.trans ((h hchild.1 hchild.2).drop _ hcounted.sound rfl rfl)
  item_done h hsound hfits :=
    have hcounted := kept_counted _ _ hsound hfits
    have hchild := sound_child _ _ hsound hfits
    hcounted.trans (Kept.takeVisits hcounted.sound (h hchild.1 hchild.2) rfl rfl rfl rfl rfl rfl)

theorem good_of_mem_executions {rounds : ℕ} {bindings : Table String Json} {data : Json} {world : W}
    {e : Execution} (he : e ∈ (run env rounds tasks bindings data world).executions) :
    Good env e := by
  have hsound : Sound env.durable (Machine.initial bindings data world).frame :=
    ⟨rfl, by simp [Machine.initial, ExecutionState.initial],
      by simp [Machine.initial, ExecutionState.initial],
      fun r hr => absurd (by simp [Machine.initial, ExecutionState.initial, Visits.count]) hr⟩
  have hfits : Fits env.durable ⟨tasks, ["do"], true⟩ (Machine.initial bindings data world).frame :=
    fun index name => ⟨rfl, fun last hlast => by cases hlast⟩
  have hkeeps : keeping env ⟨tasks, ["do"], true⟩ (Machine.initial bindings data world)
      (run env rounds tasks bindings data world) :=
    (occurrenceWalk env).runFrom rounds ⟨tasks, ["do"], true⟩ 0 _
  have hkept := hkeeps hsound hfits
  exact (hkept.good e he).resolve_left (by simp [Machine.executions, Machine.initial])

/-! ## Ids and occurrences -/

theorem canonicalItems_occurrence (occurrence : ExecutionPath) :
    Json.canonicalItems (occurrence.map fun step => Json.arr [.str (Pointer.text step.1), .int step.2])
      = occurrence.map fun step => Json.arr [.str (Pointer.text step.1), .int step.2] := by
  induction occurrence with
  | nil => rfl
  | cons _ _ ih =>
    rw [List.map_cons, Json.canonicalItems, ih]
    rfl

theorem operationValue_injective {a b : ExecutionPath}
    (h : (operationValue env a).canonical = (operationValue env b).canonical) : a = b := by
  -- sorting keeps the fields, and only one of them is the occurrence
  have hmem (c : ExecutionPath) : ("occurrence", Json.arr (c.map fun step =>
      Json.arr [.str (Pointer.text step.1), .int step.2])) ∈ Json.canonicalFields
        [("invocation_id", .str env.invocationId), ("fingerprint", .str env.fingerprint),
          ("occurrence", .arr (c.map fun step =>
            Json.arr [.str (Pointer.text step.1), .int step.2]))] := by
    simp [Json.canonicalFields, Json.canonical, canonicalItems_occurrence]
  have hfields := Json.obj.inj h
  have hfound := (List.mem_insertionSort fun x y : String × Json => x.1 ≤ y.1).mpr (hmem a)
  rw [hfields, List.mem_insertionSort] at hfound
  simp only [Json.canonicalFields, Json.canonical, canonicalItems_occurrence, List.mem_cons,
    Prod.mk.injEq, List.not_mem_nil, or_false, Json.arr.injEq] at hfound
  have hitems := (hfound.resolve_left (by simp)).resolve_left (by simp)
  have hinjective : Function.Injective fun step : Pointer × ℕ =>
      Json.arr [.str (Pointer.text step.1), .int step.2] := by
    rintro ⟨r, v⟩ ⟨r', v'⟩ hstep
    simp only [Json.arr.injEq, List.cons.injEq, Json.str.injEq, Json.int.injEq, and_true,
      Nat.cast_inj] at hstep
    exact Prod.ext (Pointer.text_injective hstep.1) hstep.2
  exact List.map_injective_iff.mpr hinjective hitems.2

theorem operationKey_eq_ok {reference : Pointer} {occurrence : ExecutionPath} {id : String}
    (h : operationKey env reference occurrence = .ok id) : ((∀ step ∈ occurrence, step.2 ≤ 1) ∧
      id.toList = env.invocationId.toList ++ ':' :: Pointer.chars reference) ∨
    id.toList = env.invocationId.toList ++ ':' :: ("visit-v1:".toList ++
      ((env.hash "owa/logical-operation/v1" (operationValue env occurrence).canonical).toList ++
        ':' :: Pointer.chars reference)) := by
  unfold operationKey at h
  split at h
  · split at h
    · rename_i digest hdigest
      obtain ⟨-, hhash⟩ := effectRequestDigest_eq_ok.mp hdigest
      cases h
      refine Or.inr ?_
      rw [← hhash]
      simp [String.toList_append, Pointer.text]
    · cases h
  · rename_i hfirst
    cases h
    refine Or.inl ⟨fun step hstep => ?_, by simp [String.toList_append, Pointer.text]⟩
    by_contra hrepeated
    exact hfirst (List.any_eq_true.mpr ⟨step, hstep, by simpa using hrepeated⟩)

/-- No two of the values that the run digests have the same hash. -/
def NoCollision (env : Environment W) (m : Machine W) : Prop :=
  ∀ e ∈ m.executions, ∀ e' ∈ m.executions,
    env.hash "owa/logical-operation/v1" (operationValue env (dropMarked e.occurrence)).canonical =
      env.hash "owa/logical-operation/v1" (operationValue env (dropMarked e'.occurrence)).canonical →
    (operationValue env (dropMarked e.occurrence)).canonical =
      (operationValue env (dropMarked e'.occurrence)).canonical

/-- Steps without repeated visits are determined by their references. -/
theorem eq_of_first_visits {a b : ExecutionPath} (ha : ∀ step ∈ a, step.2 = 1)
    (hb : ∀ step ∈ b, step.2 = 1) (h : a.map Prod.fst = b.map Prod.fst) : a = b := by
  have hrebuild {c : ExecutionPath} (hc : ∀ step ∈ c, step.2 = 1) :
      (c.map Prod.fst).map (fun r => (r, 1)) = c := by
    rw [List.map_map]
    conv_rhs => rw [← List.map_id c]
    exact List.map_congr_left fun step hstep => Prod.ext rfl (hc step hstep).symm
  rw [← hrebuild ha, ← hrebuild hb, h]

theorem map_fst_dropMarked (occurrence : ExecutionPath) :
    (dropMarked occurrence).map Prod.fst =
      (occurrence.map Prod.fst).filter fun r => !endsWithMarker r := by
  unfold dropMarked
  rw [List.filter_map]
  rfl

/-- Two ids are the same exactly when the task is the same and the occurrences agree on the steps
that are not taken for attempts. -/
theorem Good.operationId_eq_iff {e e' : Execution} (h : Good env e) (h' : Good env e')
    (hhex : ∀ operation value, (env.hash operation value).toList.all isHexDigit = true)
    (hcollision : env.hash "owa/logical-operation/v1"
        (operationValue env (dropMarked e.occurrence)).canonical =
      env.hash "owa/logical-operation/v1" (operationValue env (dropMarked e'.occurrence)).canonical →
      (operationValue env (dropMarked e.occurrence)).canonical =
        (operationValue env (dropMarked e'.occurrence)).canonical) :
    e.operationId = e'.operationId ↔
      e.reference = e'.reference ∧ dropMarked e.occurrence = dropMarked e'.occurrence := by
  constructor
  swap
  · rintro ⟨hreference, hoccurrence⟩
    have hkey := h.key
    rw [hreference, hoccurrence, h'.key] at hkey
    exact (Except.ok.inj hkey).symm
  intro hid
  have hcolon (value : Json) : ':' ∉ (env.hash "owa/logical-operation/v1" value).toList := by
    intro hmem
    have hdigit := List.all_eq_true.mp (hhex "owa/logical-operation/v1" value) ':' hmem
    exact absurd hdigit (by decide)
  -- a reference starts with a slash, the longer form with a `v`
  have hforms {r : Pointer} {x : List Char} (hsame : Pointer.chars r = "visit-v1:".toList ++ x) :
      False := by
    rcases Pointer.headed_chars r with hnil | ⟨rest, hcons⟩
    · rw [hnil] at hsame
      simp at hsame
    · rw [hcons] at hsame
      simp at hsame
  have hlists := congrArg String.toList hid
  rcases operationKey_eq_ok h.key with ⟨hfirst, hlist⟩ | hlist <;>
    rcases operationKey_eq_ok h'.key with ⟨hfirst', hlist'⟩ | hlist' <;>
    rw [hlist, hlist'] at hlists <;>
    have hrest := (List.cons.inj (List.append_cancel_left hlists)).2
  · have hreference : e.reference = e'.reference := Pointer.chars_injective hrest
    refine ⟨hreference, eq_of_first_visits ?_ ?_ ?_⟩
    · exact fun step hstep => le_antisymm (hfirst step hstep)
        (h.counted step (List.mem_filter.mp hstep).1)
    · exact fun step hstep => le_antisymm (hfirst' step hstep)
        (h'.counted step (List.mem_filter.mp hstep).1)
    · have hchain := h.chain
      rw [hreference, h'.chain] at hchain
      rw [map_fst_dropMarked, map_fst_dropMarked, Option.some.inj hchain]
  · exact (hforms hrest).elim
  · exact (hforms hrest.symm).elim
  · obtain ⟨hdigest, hreference⟩ := Pointer.append_headed_inj (hcolon _) (hcolon _)
      (Or.inr ⟨_, rfl⟩) (Or.inr ⟨_, rfl⟩) (List.append_cancel_left hrest)
    exact ⟨Pointer.chars_injective (List.cons.inj hreference).2,
      operationValue_injective (hcollision (String.toList_injective hdigest))⟩

/-- Two different occurrences that differ in the visits of tasks called like an attempt only. -/
def DifferInMarked (e e' : Execution) : Prop :=
  e.reference = e'.reference ∧ dropMarked e.occurrence = dropMarked e'.occurrence ∧
    e.occurrence ≠ e'.occurrence

/-- **Operation ids name logical occurrences**, as long as no two of them differ only in the visits
of tasks that are called `@attempt` or `@catch-attempt`.  Without such names they always do. -/
theorem operation_ids_name_occurrences (env : Environment W) (rounds : ℕ) (tasks : TaskList)
    (bindings : Table String Json) (data : Json) (world : W)
    (hhex : ∀ operation value, (env.hash operation value).toList.all isHexDigit = true)
    (hcollision : NoCollision env (run env rounds tasks bindings data world)) :
    ∀ e ∈ (run env rounds tasks bindings data world).executions,
      ∀ e' ∈ (run env rounds tasks bindings data world).executions,
        ((e.operationId = e'.operationId ↔ e.occurrence = e'.occurrence) ↔
          ¬ DifferInMarked e e') ∧
        ((∀ step ∈ e.occurrence ++ e'.occurrence, endsWithMarker step.1 = false) →
          (e.operationId = e'.operationId ↔ e.occurrence = e'.occurrence)) := by
  intro e he e' he'
  have hgood := good_of_mem_executions he
  have hgood' := good_of_mem_executions he'
  have hids := hgood.operationId_eq_iff hgood' hhex (hcollision e he e' he')
  have hsame (h : e.occurrence = e'.occurrence) : e.reference = e'.reference :=
    ancestry_injective hgood.chain (h ▸ hgood'.chain)
  have hproperty : (e.operationId = e'.operationId ↔ e.occurrence = e'.occurrence) ↔
      ¬ DifferInMarked e e' := by
    rw [hids]
    constructor
    · rintro h ⟨hreference, hdropped, hne⟩
      exact hne (h.mp ⟨hreference, hdropped⟩)
    · intro h
      constructor
      · rintro ⟨hreference, hdropped⟩
        by_contra hne
        exact h ⟨hreference, hdropped, hne⟩
      · exact fun hoccurrence => ⟨hsame hoccurrence, by rw [hoccurrence]⟩
  refine ⟨hproperty, fun hplain => hproperty.mpr ?_⟩
  rintro ⟨-, hdropped, hne⟩
  have hkeep {c : ExecutionPath} (hc : ∀ step ∈ c, endsWithMarker step.1 = false) :
      dropMarked c = c :=
    List.filter_eq_self.mpr fun step hstep => by simp [hc step hstep]
  rw [hkeep fun step hstep => hplain step (List.mem_append_left _ hstep),
    hkeep fun step hstep => hplain step (List.mem_append_right _ hstep)] at hdropped
  exact hne hdropped

/-! ### Revisited tasks

An environment without a world, in which setting a number adds one to it, a condition holds of the
number one, and actions fail. -/

/-- A digest for occurrences of one step. -/
def oneStepDigest : Json → String
  | .obj [_, _, (_, .arr [.arr [.str reference, .int visit]])] =>
    if reference = "/do/0/count" then (if visit = 1 then "a" else "b")
    else if visit = 1 then "c" else "d"
  | _ => "e"

def plainEnvironment : Environment Unit where
  invocationId := "run"
  fingerprint := "plan"
  hash := fun _ value => oneStepDigest value
  source := id
  durable := false
  evaluate := fun expression data _ => .ok (match data with
    | .int n => .int (n + 1)
    | _ => expression)
  condition := fun _ data _ => .ok (data = .int 1)
  schemaProblem := fun _ _ => none
  checkpoint := fun w => (.ok (), w)
  deadline := fun w => (.ok (), w)
  endedElsewhere := fun w => (none, w)
  perform := fun _ _ w => (.error (.fault ⟨⟨"tool_error", "failed", []⟩, 500, none⟩), w)
  scheduled := fun _ w => (false, w)
  retryReady := fun _ _ w => (.ok true, w)
  admitAttempt := fun _ _ w => (.ok (), w)
  nextEvent := fun _ _ w => (.ok none, w)
  pick := fun w => (0, w)
  decided := fun _ w => (.ok none, w)
  decide := fun _ _ w => (.ok none, w)

theorem plainEnvironment_hash_hex (operation : String) (value : Json) :
    (plainEnvironment.hash operation value).toList.all isHexDigit = true := by
  show (oneStepDigest value).toList.all isHexDigit = true
  unfold oneStepDigest
  split
  · split_ifs <;> decide
  · decide

/-- A task and a switch that goes back to it once. -/
def revisited (name : String) : TaskList :=
  [(name, .set {} .null), ("again", .switch {} [(some "once", some (.task name))])]

/-- Under another name the two visits have two ids. -/
theorem operation_ids_name_occurrences_revisited :
    (run plainEnvironment 9 (revisited "count") ∅ (.int 0) ()).executions.length = 4 ∧
    ∀ e ∈ (run plainEnvironment 9 (revisited "count") ∅ (.int 0) ()).executions,
      ∀ e' ∈ (run plainEnvironment 9 (revisited "count") ∅ (.int 0) ()).executions,
        ((e.operationId = e'.operationId ↔ e.occurrence = e'.occurrence) ↔
          ¬ DifferInMarked e e') ∧
        ((∀ step ∈ e.occurrence ++ e'.occurrence, endsWithMarker step.1 = false) →
          (e.operationId = e'.operationId ↔ e.occurrence = e'.occurrence)) :=
  ⟨by decide +kernel,
    operation_ids_name_occurrences plainEnvironment 9 (revisited "count") ∅ (.int 0) ()
      plainEnvironment_hash_hex (by unfold NoCollision; decide +kernel)⟩

/-- The two visits of a task that is called `@attempt` share an id. -/
theorem operation_ids_of_marked_task_collide :
    ∃ e ∈ (run plainEnvironment 9 (revisited "@attempt") ∅ (.int 0) ()).executions,
      ∃ e' ∈ (run plainEnvironment 9 (revisited "@attempt") ∅ (.int 0) ()).executions,
        e.operationId = e'.operationId ∧ e.occurrence ≠ e'.occurrence := by
  decide +kernel

end Interpreter
