/-
# Execution paths

No two task executions of a run have the same execution path, whatever jumps, loops,
forks, retries, events and calls the workflow makes.

The argument follows the interpreter from the inside out.  A piece of a run `Adds`
paths: new ones, pairwise different, of a stated form.  The tasks of a scope add paths
that go on from the path of the scope with a reference and a visit that the scope had
not counted before, and has counted afterwards (`Grows`).  Two pieces add different
paths because these visits lie in disjoint intervals, or because an attempt, an event or
the number of a branch tells them apart.  Visits that are lost, as those of a failed
iteration or of the branches of a fork, are never needed again: what follows has a
different attempt number, or a different branch.
-/
import OpenWorkflowAgent.InterpreterSteps

open Program

namespace Machine

variable {W : Type}

/-- The task executions of a run so far, in order. -/
def executions (m : Machine W) : List Execution := m.trace.filterMap Entry.execution?

def paths (m : Machine W) : List ExecutionPath := m.executions.map Execution.path

theorem paths_of_trace_eq {m m' : Machine W} (h : m'.trace = m.trace) : m'.paths = m.paths := by
  unfold paths executions
  rw [h]

theorem paths_record (m : Machine W) (entry : Entry) :
    ({ m with trace := m.trace ++ [entry] } : Machine W).paths =
      m.paths ++ (entry.execution?.map Execution.path).toList := by
  unfold paths executions
  cases h : entry.execution? <;> simp [h]

end Machine

theorem Visits.count_put_self (V : Visits) (r : Pointer) (n : ℕ) :
    Visits.count (V.put r n) r = n := by
  simp [Visits.count]

theorem Visits.count_put_ne (V : Visits) {r r' : Pointer} (n : ℕ) (h : r' ≠ r) :
    Visits.count (V.put r n) r' = V.count r' := by
  simp [Visits.count, Table.lookup_put_ne h]

namespace Interpreter

variable {W α : Type}

/-! ## Forms of paths -/

/-- The path goes on from `path`. -/
def Below (path p : ExecutionPath) : Prop := ∃ step rest, p = path ++ step :: rest

/-- The path goes on from `path` with a reference under `R` and a visit above those counted by
`V`. -/
def Later (R : Pointer) (path : ExecutionPath) (V : Visits) (p : ExecutionPath) : Prop :=
  ∃ r v rest, p = path ++ (r, v) :: rest ∧ R <+: r ∧ V.count r < v

/-- The same, with a visit that `V'` has counted. -/
def Within (R : Pointer) (path : ExecutionPath) (V V' : Visits) (p : ExecutionPath) : Prop :=
  ∃ r v rest, p = path ++ (r, v) :: rest ∧ R <+: r ∧ V.count r < v ∧ v ≤ V'.count r

/-- The path goes on from `path` with a number above `k`: an attempt or an event. -/
def Numbered (path : ExecutionPath) (k : ℕ) (p : ExecutionPath) : Prop :=
  ∃ r n rest, p = path ++ (r, n) :: rest ∧ k < n

/-- The path goes on from `path` in a branch from the `k`-th on of the fork `X`. -/
def InBranch (X : Pointer) (path : ExecutionPath) (k : ℕ) (p : ExecutionPath) : Prop :=
  ∃ j, k ≤ j ∧ ∃ r v rest, p = path ++ (r, v) :: rest ∧
    X ++ ["fork", "branches", toString j] <+: r

section Forms

variable {R R' X : Pointer} {path p : ExecutionPath} {V V' : Visits} {k : ℕ}

theorem Within.later (h : Within R path V V' p) : Later [] path V p := by
  obtain ⟨r, v, rest, hp, -, hlt, -⟩ := h
  exact ⟨r, v, rest, hp, List.nil_prefix, hlt⟩

theorem Later.below (h : Later R path V p) : Below path p := by
  obtain ⟨r, v, rest, hp, -⟩ := h
  exact ⟨(r, v), rest, hp⟩

theorem Numbered.below (h : Numbered path k p) : Below path p := by
  obtain ⟨r, n, rest, hp, -⟩ := h
  exact ⟨(r, n), rest, hp⟩

theorem InBranch.below (h : InBranch X path k p) : Below path p := by
  obtain ⟨j, -, r, v, rest, hp, -⟩ := h
  exact ⟨(r, v), rest, hp⟩

theorem Numbered.of_succ (h : Numbered path (k + 1) p) : Numbered path k p := by
  obtain ⟨r, n, rest, hp, hlt⟩ := h
  exact ⟨r, n, rest, hp, by omega⟩

theorem Numbered.of_below {r : Pointer} (h : path ++ [(r, k + 1)] <+: p) : Numbered path k p := by
  obtain ⟨rest, rfl⟩ := h
  exact ⟨r, k + 1, rest, by simp, by omega⟩

theorem Below.isPrefix (h : Below path p) : path <+: p := by
  obtain ⟨step, rest, rfl⟩ := h
  exact List.prefix_append _ _

/-- The steps after a common beginning agree. -/
theorem step_eq {rest rest' : ExecutionPath} {a b : Pointer × ℕ}
    (h : path ++ a :: rest = path ++ b :: rest') : a = b :=
  (List.cons.inj (List.append_cancel_left h)).1

/-- Visits up to `V'` and visits above `V'` are different. -/
theorem Within.not_later (h : Within R path V V' p) (h' : Later R' path V' p) : False := by
  obtain ⟨r, v, rest, rfl, -, -, hle⟩ := h
  obtain ⟨r', v', rest', hp, -, hlt⟩ := h'
  obtain ⟨rfl, rfl⟩ := Prod.mk.inj (step_eq hp)
  omega

/-- What goes on from one number has no larger number. -/
theorem Numbered.not_below {r : Pointer} (h : Numbered path k p) (h' : path ++ [(r, k)] <+: p) :
    False := by
  obtain ⟨rest, rfl⟩ := h'
  obtain ⟨r', n, rest', hp, hlt⟩ := h
  rw [List.append_assoc] at hp
  obtain ⟨-, rfl⟩ := Prod.mk.inj (step_eq hp)
  omega

theorem InBranch.not_within (h : InBranch X path (k + 1) p)
    (h' : Within (X ++ ["fork", "branches", toString k]) path V V' p) : False := by
  obtain ⟨j, hj, r, v, rest, rfl, hr⟩ := h
  obtain ⟨r', v', rest', hp, hr', -⟩ := h'
  obtain ⟨rfl, -⟩ := Prod.mk.inj (step_eq hp)
  -- both are beginnings of one reference, of the same length
  have hsame : X ++ ["fork", "branches", toString j] = X ++ ["fork", "branches", toString k] :=
    (List.prefix_of_prefix_length_le hr hr' (by simp)).eq_of_length (by simp)
  have htext : toString j = toString k := by simpa using hsame
  have hjk : j = k := Nat.repr_inj.mp htext
  omega

end Forms

/-! ## New paths -/

/-- The run adds paths of the form `P`, all different, and no visit is forgotten. -/
structure Adds (P : ExecutionPath → Prop) (m m' : Machine W) : Prop where
  visits : ∀ r, m.frame.taskVisits.count r ≤ m'.frame.taskVisits.count r
  added : ∃ new, m'.paths = m.paths ++ new ∧ new.Nodup ∧ ∀ p ∈ new, P p

namespace Adds

variable {P Q S : ExecutionPath → Prop} {m m₁ m₂ : Machine W}

theorem of_quiet (h : Quiet m m₁) : Adds P m m₁ :=
  ⟨fun r => by rw [h.visits],
    [], by rw [Machine.paths_of_trace_eq h.trace, List.append_nil], List.nodup_nil, by simp⟩

theorem mono (h : Adds P m m₁) (himp : ∀ p, P p → Q p) : Adds Q m m₁ := by
  obtain ⟨new, hpaths, hnodup, hall⟩ := h.added
  exact ⟨h.visits, new, hpaths, hnodup, fun p hp => himp p (hall p hp)⟩

/-- Two pieces after each other, when no path is of both forms. -/
theorem append (h : Adds P m m₁) (h' : Adds Q m₁ m₂) (hdisjoint : ∀ p, P p → Q p → False)
    (hP : ∀ p, P p → S p) (hQ : ∀ p, Q p → S p) : Adds S m m₂ := by
  obtain ⟨new, hpaths, hnodup, hall⟩ := h.added
  obtain ⟨new', hpaths', hnodup', hall'⟩ := h'.added
  refine ⟨fun r => (h.visits r).trans (h'.visits r), new ++ new',
    by rw [hpaths', hpaths, List.append_assoc], ?_, ?_⟩
  · refine List.Nodup.append hnodup hnodup' fun p hp hp' => ?_
    exact hdisjoint p (hall p hp) (hall' p hp')
  · intro p hp
    rcases List.mem_append.mp hp with hp | hp
    · exact hP p (hall p hp)
    · exact hQ p (hall' p hp)

theorem before (h : Quiet m m₁) (h' : Adds P m₁ m₂) : Adds P m m₂ :=
  (of_quiet (P := fun _ => False) h).append h' (fun _ hp _ => hp) (fun _ hp => hp.elim) fun _ => id

theorem after (h : Adds P m m₁) (h' : Quiet m₁ m₂) : Adds P m m₂ :=
  h.append (of_quiet (P := fun _ => False) h') (fun _ _ hp => hp) (fun _ => id) fun _ hp => hp.elim

/-- The same additions between other frames. -/
theorem reframe (h : Adds P m m₁) (s s' : ExecutionState)
    (hvisits : ∀ r, s.taskVisits.count r ≤ s'.taskVisits.count r) :
    Adds P (m.withFrame s) (m₁.withFrame s') :=
  ⟨hvisits, h.added⟩

end Adds

/-- Additions of a form that depends on the place only. -/
theorem absorbs_adds {P : Machine W → ExecutionPath → Prop}
    (hP : ∀ {m m'}, Quiet m m' → P m' = P m) : Absorbs fun m m' => Adds (P m) m m' where
  quiet h := Adds.of_quiet h
  before h h' := (hP h ▸ h').before h
  after h h' := h.after h'

/-- What a task does in its own state: all paths go on from its own. -/
def Deepens (m m' : Machine W) : Prop := Adds (Below m.frame.executionPath) m m'

theorem absorbs_deepens : Absorbs (Deepens (W := W)) := absorbs_adds fun h => by rw [h.path]

/-! ## The tasks of a scope -/

/-- What the tasks of a scope with the reference `R` do: the path stays, and the added paths are
those of the visits that were counted. -/
structure Grows (R : Pointer) (m m' : Machine W) : Prop where
  path : m'.frame.executionPath = m.frame.executionPath
  adds : Adds (Within R m.frame.executionPath m.frame.taskVisits m'.frame.taskVisits) m m'

namespace Grows

variable {R : Pointer} {m m₁ m₂ : Machine W}

theorem of_quiet (h : Quiet m m₁) : Grows R m m₁ := ⟨h.path, Adds.of_quiet h⟩

theorem trans (h : Grows R m m₁) (h' : Grows R m₁ m₂) : Grows R m m₂ := by
  have hadds := h'.adds
  rw [h.path] at hadds
  refine ⟨h'.path.trans h.path, ?_⟩
  refine h.adds.append hadds (fun p hp hp' => hp.not_later hp'.later) ?_ ?_
  · rintro p ⟨r, v, rest, hp, hR, hlt, hle⟩
    exact ⟨r, v, rest, hp, hR, hlt, hle.trans (h'.adds.visits r)⟩
  · rintro p ⟨r, v, rest, hp, hR, hlt, hle⟩
    exact ⟨r, v, rest, hp, hR, (h.adds.visits r).trans_lt hlt, hle⟩

/-- A scope inside of another one. -/
theorem weaken (h : Grows R m m₁) : Grows [] m m₁ := by
  refine ⟨h.path, h.adds.mono ?_⟩
  rintro p ⟨r, v, rest, hp, -, hbounds⟩
  exact ⟨r, v, rest, hp, List.nil_prefix, hbounds⟩

theorem deepens (h : Grows R m m₁) : Deepens m m₁ := h.adds.mono fun _ hp => hp.later.below

end Grows

theorem absorbs_grows (R : Pointer) : Absorbs (Grows (W := W) R) :=
  Absorbs.of_preorder Grows.of_quiet Grows.trans

/-- The note of an attempt of a block is no execution. -/
theorem grows_record {R : Pointer} {entry : Entry} (h : entry.execution? = none) :
    Leads (record entry : Exec W Unit) (Grows R) := by
  intro m
  refine ⟨rfl, fun r => le_refl _, [], ?_, List.nodup_nil, by simp⟩
  exact (m.paths_record entry).trans (by simp [h])

theorem grows_operationVisitScope {R : Pointer} {body : Exec W α} (h : Leads body (Grows R)) :
    Leads (operationVisitScope body) (Grows R) := by
  intro m
  rw [final_operationVisitScope]
  have hbody := h (m.withFrame { m.frame with
    visitScopes := m.frame.visitScopes ++ [(m.frame.executionReference, m.frame.taskVisits)] })
  exact ⟨hbody.path, hbody.adds.visits, hbody.adds.added⟩

/-! ## Loops, branches, events and attempts -/

section Pieces

variable {env : Environment W} {m m' left : Machine W} {k : ℕ}

abbrev growing (plan : ScopePlan) : Change W := Grows plan.reference

/-- The iterations of a loop share the path; the visits keep them apart. -/
theorem Iterates.next (h : Iterates growing m left)
    (h' : Adds (Later [] m.frame.executionPath left.frame.taskVisits) (m.iterated left) m') :
    Adds (Later [] m.frame.executionPath m.frame.taskVisits) m m' := by
  obtain ⟨body, child, hquiet, hgrows⟩ := h
  have hadds := hgrows.adds
  rw [hquiet.path, hquiet.visits] at hadds
  have hvisits : ∀ r, m.frame.taskVisits.count r ≤ left.frame.taskVisits.count r := fun r => by
    rw [← hquiet.visits]
    exact hgrows.adds.visits r
  refine (hadds.reframe m.frame (m.iterated left).frame hvisits).append h' (fun p hp hp' => hp.not_later hp')
    (fun p hp => hp.later) ?_
  rintro p ⟨r, v, rest, hp, hR, hlt⟩
  exact ⟨r, v, rest, hp, hR, (hvisits r).trans_lt hlt⟩

/-- The visits of a failed iteration are dropped, and the loop is over. -/
theorem Iterates.failed (h : Iterates growing m left) :
    Adds (Later [] m.frame.executionPath m.frame.taskVisits) m (left.withFrame m.frame) := by
  obtain ⟨body, child, hquiet, hgrows⟩ := h
  have hadds := hgrows.adds
  rw [hquiet.path, hquiet.visits] at hadds
  exact (hadds.mono fun p hp => hp.later).reframe m.frame m.frame fun r => le_refl _

/-- The branches of a fork share the path and the visits; their references keep them apart. -/
theorem Grows.nextBranch {tasks : TaskList} (h : growing ⟨tasks,
      nestedReference m.frame ["fork", "branches", toString k], false⟩
      (m.withFrame m.frame.copyState) left)
    (h' : Adds (InBranch m.frame.executionReference m.frame.executionPath (k + 1)) { left with
      frame := m.frame
      flow := m.flow } m') :
    Adds (InBranch m.frame.executionReference m.frame.executionPath k) m m' := by
  have hbranch : Adds (Within (m.frame.executionReference ++ ["fork", "branches", toString k])
      m.frame.executionPath m.frame.taskVisits left.frame.taskVisits) m { left with
        frame := m.frame
        flow := m.flow } :=
    ⟨fun r => le_refl _, h.adds.added⟩
  refine hbranch.append h' (fun p hp hp' => hp'.not_within hp) ?_ ?_
  · rintro p ⟨r, v, tail, hp, hr, -⟩
    exact ⟨k, le_refl _, r, v, tail, hp, hr⟩
  · rintro p ⟨j, hj, htail⟩
    exact ⟨j, by omega, htail⟩

/-- The path goes on from `path`, for a durable listener with the step of an event. -/
def OfEvent (env : Environment W) (m : Machine W) (k : ℕ) (p : ExecutionPath) : Prop :=
  Below m.frame.executionPath p ∧ (env.durable = true →
    m.frame.executionPath ++ [(m.frame.executionReference ++ ["@event"], k + 1)] <+: p)

/-- The paths of the events after the `k`-th. -/
def OfEvents (env : Environment W) (k : ℕ) (m : Machine W) (p : ExecutionPath) : Prop :=
  Below m.frame.executionPath p ∧ (env.durable = true → Numbered m.frame.executionPath k p)

theorem OfEvent.ofEvents {p : ExecutionPath} (h : OfEvent env m k p) : OfEvents env k m p :=
  ⟨h.1, fun hdurable => Numbered.of_below (h.2 hdurable)⟩

theorem Handles.adds (h : Handles env growing k m left) (s : ExecutionState)
    (hvisits : ∀ r, m.frame.taskVisits.count r ≤ s.taskVisits.count r) :
    Adds (OfEvent env m k) m (left.withFrame s) := by
  obtain ⟨iterator, body, value, hgrows⟩ := h
  refine (hgrows.deepens.mono fun p hp => ?_).reframe m.frame s hvisits
  have hpath : (itemState env iterator (k + 1) value m.frame).executionPath =
      m.frame.executionPath ++ if env.durable then
        [(m.frame.executionReference ++ ["@event"], k + 1)] else [] := rfl
  obtain ⟨step, rest, rfl⟩ := hp
  show OfEvent env m k ((itemState env iterator (k + 1) value m.frame).executionPath ++ _)
  rw [hpath]
  unfold OfEvent
  cases env.durable with
  | false => exact ⟨⟨step, rest, by simp⟩, fun h => by cases h⟩
  | true =>
    refine ⟨⟨(m.frame.executionReference ++ ["@event"], k + 1), step :: rest, by simp⟩, fun _ => ?_⟩
    exact List.prefix_append _ _

theorem Handles.visits (h : Handles env growing k m left) (r : Pointer) :
    m.frame.taskVisits.count r ≤ left.frame.taskVisits.count r := by
  obtain ⟨iterator, body, value, hgrows⟩ := h
  exact hgrows.adds.visits r

/-- The attempts of a block are numbered.  The handler shares the number of the last attempt; the
visits keep the two apart. -/
theorem deepens_runAttempts {nested : ScopePlan → Exec W Unit}
    (hnested : ∀ plan, Leads (nested plan) (growing plan)) (body handler : TaskList)
    (clause : CatchSettings) (rounds : ℕ) (m : Machine W) :
    Deepens m (final (runAttempts env nested body clause handler m.frame rounds 0) m) := by
  have hmarked {k : ℕ} {m₁ m' : Machine W} (h : Grows [] (blockStart m.frame k m₁) m') :
      Adds (fun p => m.frame.executionPath ++
        [(m₁.frame.taskReference ++ ["@catch-attempt"], k + 1)] <+: p) m₁ m' :=
    ⟨h.adds.visits, (h.deepens.mono fun p hp => hp.isPrefix).added⟩
  have hattempts := leads_runAttempts env (A := fun k => Adds (Numbered m.frame.executionPath k))
    (absorbs_grows []) Grows.trans (fun _ _ _ m => (hnested _ m).weaken) grows_record
    grows_operationVisitScope (fun _ m => Adds.of_quiet (Quiet.refl m))
    (fun h => (hmarked h).mono fun p hp => Numbered.of_below hp)
    (fun h h' => (hmarked h).append h' (fun p hp hp' => hp'.not_below hp)
      (fun p hp => Numbered.of_below hp) fun p hp => hp.of_succ) body handler clause rounds 0 m
  exact hattempts.mono fun p hp => hp.below

theorem adds_execution {execution : Execution} (hpath : execution.path = m.frame.executionPath)
    (h : Deepens { m with trace := m.trace ++ [.executes execution] } m') :
    Adds (fun p => m.frame.executionPath <+: p) m m' := by
  have hrecord : Adds (fun p => p = m.frame.executionPath) m
      { m with trace := m.trace ++ [.executes execution] } := by
    refine ⟨fun r => le_refl _, [execution.path], m.paths_record (.executes execution),
      List.nodup_singleton _, fun p hp => ?_⟩
    rw [List.mem_singleton.mp hp, hpath]
  refine hrecord.append h ?_ ?_ fun p hp => hp.isPrefix
  · rintro p rfl ⟨step, rest, hp⟩
    simpa using congrArg List.length hp
  · rintro p rfl
    exact List.prefix_rfl

theorem count_le_counted (execution r : Pointer) :
    m.frame.taskVisits.count r ≤ (m.counted execution).frame.taskVisits.count r := by
  show _ ≤ Visits.count (m.frame.taskVisits.put execution _) r
  by_cases h : r = execution
  · rw [h, Visits.count_put_self]
    omega
  · rw [Visits.count_put_ne _ _ h]

/-- All paths of a task go on from the visit that was just counted. -/
theorem grows_item {name : String} {R execution : Pointer} (hR : R <+: execution)
    (h : Deepens (childOf env name execution m) left) (s : ExecutionState)
    (hpath : s.executionPath = m.frame.executionPath)
    (hs : ∀ r, (m.counted execution).frame.taskVisits.count r ≤ s.taskVisits.count r) :
    Grows R m (left.withFrame s) := by
  refine ⟨hpath, fun r => (count_le_counted execution r).trans (hs r), ?_⟩
  refine (h.mono fun p hp => ?_).added
  obtain ⟨step, rest, rfl⟩ := hp
  refine ⟨execution, m.frame.taskVisits.count execution + 1, step :: rest, ?_, hR, by omega, ?_⟩
  · show (m.frame.executionPath ++ [(execution, _)]) ++ step :: rest = _
    simp
  · have hcount := hs execution
    rwa [Machine.counted, Machine.withFrame, Visits.count_put_self] at hcount

theorem reference_below (plan : ScopePlan) (index : ℕ) (name : String) :
    plan.reference <+: plan.taskReference index name := by
  unfold ScopePlan.taskReference
  split <;> exact List.prefix_append _ _

end Pieces

def pathWalk (env : Environment W) : Walk env where
  scope := growing
  inside := Deepens
  pushed := Deepens
  task := Deepens
  loop m m' := Adds (Later [] m.frame.executionPath m.frame.taskVisits) m m'
  branch k m m' := Adds (InBranch m.frame.executionReference m.frame.executionPath k) m m'
  event k m m' := Adds (OfEvents env k m) m m'
  attempt m m' := Adds (fun p => m.frame.executionPath <+: p) m m'
  policy path k := Adds (Numbered path k)
  absorbs_scope _ := absorbs_grows _
  scope_trans := Grows.trans
  absorbs_inside := absorbs_deepens
  absorbs_task := absorbs_deepens
  absorbs_attempt := absorbs_adds fun h => by rw [h.path]
  body _ h := h.deepens
  absorbs_loop := absorbs_adds fun h => by rw [h.path, h.visits]
  loop_failed h := h.failed
  loop_next h h' := h.next h'
  loop_inside h := h.mono fun _ hp => hp.below
  absorbs_branch _ := absorbs_adds fun h => by rw [h.path, h.reference]
  branch_next h h' := h.nextBranch h'
  branch_inside h := h.mono fun _ hp => hp.below
  call h := h.deepens.reframe _ _ fun r => le_refl _
  absorbs_event _ := absorbs_adds fun h => by unfold OfEvents; rw [h.path]
  event_skip h := h.mono fun _ hp => ⟨hp.1, fun hdurable => (hp.2 hdurable).of_succ⟩
  event_failed h := (h.adds _ fun r => le_refl _).mono fun _ hp => hp.ofEvents
  event_done {_ m left} h := (h.adds (m.handled left).frame h.visits).mono fun _ hp => hp.ofEvents
  event_next {_ m _ left} hdurable h h' := (h.adds (m.handled left).frame h.visits).append h'
    (fun _ hp hp' => (hp'.2 hdurable).not_below (hp.2 hdurable)) (fun _ hp => hp.ofEvents)
    fun _ hp => ⟨hp.1, fun _ => (hp.2 hdurable).of_succ⟩
  event_inside h := h.mono fun _ hp => hp.1
  guarded hnested := deepens_runAttempts hnested
  push h := ⟨h.visits, h.added⟩
  execution _ h := adds_execution rfl h
  policy_done h := ⟨h.visits, (h.mono fun _ hp => Numbered.of_below hp).added⟩
  policy_next h h' := Adds.append ⟨h.visits, h.added⟩ h' (fun _ hp hp' => hp'.not_below hp)
    (fun _ hp => Numbered.of_below hp) fun _ hp => hp.of_succ
  policy_task h := h.mono fun _ hp => hp.below
  item_counted := ⟨rfl, count_le_counted _, [], by rw [List.append_nil]; rfl, List.nodup_nil, by simp⟩
  item_failed h := grows_item (reference_below _ _ _) h _ rfl fun r => le_refl _
  item_done h := grows_item (reference_below _ _ _) h _ rfl h.visits

/-! ## Runs -/

/-- `_effect_identity`: what identifies an action of a task execution. -/
def Identifies (env : Environment W) (e : Execution) (identity : EffectIdentity) : Prop :=
  identity.invocationId = env.invocationId ∧ identity.workflowFingerprint = env.fingerprint ∧
    identity.taskReference = Pointer.text e.reference ∧
    identity.occurrence = e.path.map fun step => (Pointer.text step.1, step.2)

theorem path_texts_injective :
    Function.Injective fun path : ExecutionPath =>
      path.map fun step => (Pointer.text step.1, step.2) := by
  refine List.map_injective_iff.mpr ?_
  rintro ⟨r, v⟩ ⟨r', v'⟩ h
  obtain ⟨htext, hvisit⟩ := Prod.mk.inj h
  exact Prod.ext (Pointer.text_injective htext) hvisit

/-- **Execution paths are unique.**  In a run of any workflow, no two task executions have the
same path, and so no two actions have the same identity. -/
theorem execution_paths_distinct (env : Environment W) (rounds : ℕ) (tasks : TaskList)
    (bindings : Table String Json) (data : Json) (world : W) :
    (run env rounds tasks bindings data world).paths.Nodup ∧
      (run env rounds tasks bindings data world).executions.Pairwise fun e e' =>
        ∀ identity identity' : EffectIdentity, Identifies env e identity →
          Identifies env e' identity' → identity ≠ identity' := by
  have hgrows : Grows ["do"] (Machine.initial bindings data world)
      (run env rounds tasks bindings data world) :=
    (pathWalk env).runFrom rounds ⟨tasks, ["do"], true⟩ 0 _
  obtain ⟨new, hpaths, hnodup, -⟩ := hgrows.adds.added
  have hdistinct : (run env rounds tasks bindings data world).paths.Nodup := by
    have hnew : (run env rounds tasks bindings data world).paths = new := hpaths
    rw [hnew]
    exact hnodup
  refine ⟨hdistinct, ?_⟩
  refine (List.pairwise_map.mp hdistinct).imp ?_
  rintro e e' hne identity identity' ⟨-, -, -, hoccurrence⟩ ⟨-, -, -, hoccurrence'⟩ hsame
  rw [hsame, hoccurrence'] at hoccurrence
  exact hne (path_texts_injective hoccurrence).symm

end Interpreter
