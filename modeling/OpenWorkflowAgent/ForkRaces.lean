/-
# One decision per competitive fork

Executors of one fork race with each other, stop and start again; inside each of them
the branches race.  A stored decision never changes but for its cleanup receipt
(`ForkStep.keeps`), and every phase of every executor that holds a decision holds the
stored one (`Books`), so all answers of one fork are the answer of one row.

The row itself is the proposal of a branch that came to its end (`Proposal`); what
`_fork_decision_result` makes of a proposal is the outcome of that branch
(`forkDecisionResult_proposed`).

A fork without branches, and a fork whose workflow is ended by a task outside it, have
no decision: their executors return the data they were given.
-/
import OpenWorkflowAgent.Forks
import OpenWorkflowAgent.EffectJournal

open Transaction

/-! ## Proposals -/

section Proposals

variable {n index : ℕ} {ended : Bool} {result : BranchEnd} {fields : DecisionFields}

theorem mem_otherBranches {i : ℕ} : i ∈ otherBranches n index ↔ i < n ∧ i ≠ index := by
  simp only [otherBranches, List.mem_filter, List.mem_range, decide_eq_true_eq]

theorem proposed_winner (h : proposedFields n index ended result = some fields) :
    fields.winner = index ∧ fields.cancellationIntents = otherBranches n index := by
  cases result with
  | finished =>
    cases h
    exact ⟨rfl, rfl⟩
  | faulted =>
    cases h
    exact ⟨rfl, rfl⟩
  | suspended => cases h
  | uncertain => cases h

theorem forkDecisionResult_proposed (h : proposedFields n index ended result = some fields) :
    branchResult ended result = some (forkDecisionResult fields) := by
  cases result with
  | finished =>
    cases h
    cases ended <;> rfl
  | faulted =>
    cases h
    rfl
  | suspended => cases h
  | uncertain => cases h

end Proposals

variable {fields : DecisionFields} {identity : ForkIdentity}

theorem ForkDecision.make_eq_ok {drained : Bool} {d : ForkDecision}
    (h : ForkDecision.make fields drained = .ok d) :
    d.toDecisionFields = fields ∧ fields.problem = none := by
  unfold ForkDecision.make at h
  split at h
  · next hsound =>
      cases h
      exact ⟨rfl, hsound⟩
  · cases h

theorem ForkDecision.make_of_sound (drained : Bool) (h : fields.problem = none) :
    ForkDecision.make fields drained = .ok ⟨fields, drained, h⟩ := by
  unfold ForkDecision.make
  split
  · rfl
  · next e he =>
      rw [h] at he
      cases he

/-! ## What the store commits -/

namespace ForkDecisions

variable {key : ForkIdentity → String} {identity : ForkIdentity} {s s' : ForkStore}

variable {d : ForkDecision}

theorem get_eq_some (h : (get key identity).run s = .ok (some d, s')) :
    s' = s ∧ ∃ row, s.decisions.lookup (key identity) = some row ∧
      row.payload = d.toDecisionFields := by
  simp only [get, run_eq_ok] at h
  cases hrow : s.decisions.lookup (key identity) with
  | none =>
    rw [hrow] at h
    cases h
  | some row =>
    simp only [hrow, mapError_eq_ok, run_eq_ok] at h
    obtain ⟨-, d', hmake, hsome, rfl⟩ := h
    cases hsome
    exact ⟨rfl, row, rfl, (ForkDecision.make_eq_ok hmake).1.symm⟩

theorem get_of_row {row : DecisionRow} (hrow : s.decisions.lookup (key identity) = some row)
    (hsound : row.payload.problem = none) (hvalid : row.payload.validData = true) :
    (get key identity).run s = .ok (some ⟨row.payload, row.drained, hsound⟩, s) := by
  simp only [get, run_eq_ok, hrow, mapError_eq_ok]
  refine ⟨?_, _, ForkDecision.make_of_sound _ hsound, rfl, trivial⟩
  rw [hvalid]
  decide

theorem recordedDecision_eq_ok (h : (recordedDecision key identity).run s = .ok (d, s')) :
    ∃ row, s.decisions.lookup (key identity) = some row ∧ row.payload = d.toDecisionFields := by
  simp only [recordedDecision, run_eq_ok] at h
  obtain ⟨_, _, hget, rfl, rfl⟩ := h
  exact (get_eq_some hget).2

theorem insertDecision_eq_ok {lease : Option ExecutionLease} {u : Unit}
    (h : (insertDecision key identity d lease).run s = .ok (u, s')) :
    d.validData = true ∧ s' = { s with
      decisions := s.decisions.insertNew (key identity) ⟨d.toDecisionFields, false⟩ } := by
  simp only [insertDecision, mapError_eq_ok, run_eq_ok, Ownership.ownedWriteTransaction_eq_ok] at h
  obtain ⟨hvalid, -, rfl⟩ := h
  exact ⟨by simpa using hvalid, rfl⟩

theorem insertDecision_unleased (hvalid : d.validData = true) :
    (insertDecision key identity d none).run s = .ok ((), { s with
      decisions := s.decisions.insertNew (key identity) ⟨d.toDecisionFields, false⟩ }) := by
  simp only [insertDecision, mapError_eq_ok, run_eq_ok, Ownership.ownedWriteTransaction_eq_ok]
  exact ⟨by rw [hvalid]; decide, fun _ h => (by cases h), trivial⟩

theorem markDrained_eq_ok {lease : Option ExecutionLease} {u : Unit}
    (h : (markDrained key identity lease).run s = .ok (u, s')) :
    s' = { s with
      decisions := s.decisions.updateWhere (key identity) (fun _ => true)
        (fun row => { row with drained := true }) } := by
  simp only [markDrained, mapError_eq_ok, run_eq_ok, Ownership.ownedWriteTransaction_eq_ok] at h
  obtain ⟨-, -, rfl⟩ := h
  rfl

theorem markDrained_unleased {row : DecisionRow}
    (hrow : s.decisions.lookup (key identity) = some row) :
    (markDrained key identity none).run s = .ok ((), { s with
      decisions := s.decisions.updateWhere (key identity) (fun _ => true)
        (fun row => { row with drained := true }) }) := by
  simp only [markDrained, mapError_eq_ok, run_eq_ok, Ownership.ownedWriteTransaction_eq_ok]
  exact ⟨fun _ h => (by cases h), by rw [hrow]; simp, trivial⟩

end ForkDecisions

/-! ## Stored decisions -/

section Stored

variable {ι : Type} {key : ForkIdentity → String} {branches : ForkIdentity → ℕ}
  {forkOf : ι → ForkIdentity} {w w' : ForkSystem ι}

def SameDecision (row row' : DecisionRow) : Prop :=
  row'.payload = row.payload ∧ (row.drained = true → row'.drained = true)

theorem SameDecision.refl (row : DecisionRow) : SameDecision row row := ⟨rfl, id⟩

/-- How one step changes the decisions: not at all, by a claim, or by a cleanup receipt. -/
inductive Written (key : ForkIdentity → String) (branches : ForkIdentity → ℕ)
    (w w' : ForkSystem ι) : Prop where
  | same (decisions : w'.store.decisions = w.store.decisions)
  | claimed (finish : Finish) (fields : DecisionFields) (added : finish ∈ w'.finishes)
      (inside : finish.index < branches finish.identity)
      (proposed : proposedFields (branches finish.identity) finish.index finish.ended
        finish.result = some fields)
      (sound : fields.problem = none) (valid : fields.validData = true)
      (decisions : w'.store.decisions =
        w.store.decisions.insertNew (key finish.identity) ⟨fields, false⟩)
  | drained (identity : ForkIdentity) (decisions : w'.store.decisions =
      w.store.decisions.updateWhere (key identity) (fun _ => true)
        (fun row => { row with drained := true }))

theorem Written.keeps (h : Written key branches w w') {k : String} {row : DecisionRow}
    (hrow : w.store.decisions.lookup k = some row) :
    ∃ row', w'.store.decisions.lookup k = some row' ∧ SameDecision row row' := by
  cases h with
  | same decisions => exact ⟨row, by rw [decisions, hrow], .refl row⟩
  | claimed _ _ _ _ _ _ _ decisions =>
    refine ⟨row, ?_, .refl row⟩
    rw [decisions]
    exact Table.lookup_insertNew_of_some hrow
  | drained identity decisions =>
    rw [decisions]
    by_cases hk : k = key identity
    · subst hk
      refine ⟨{ row with drained := true }, ?_, rfl, fun _ => rfl⟩
      rw [Table.lookup_updateWhere_self, hrow]
      rfl
    · exact ⟨row, (Table.lookup_updateWhere_ne hk).trans hrow, .refl row⟩

/-! ## The books -/

/-- The payload is the sound proposal of a branch of the fork that came to its end. -/
def Proposal (branches : ForkIdentity → ℕ) (finishes : List Finish) (identity : ForkIdentity)
    (fields : DecisionFields) : Prop :=
  fields.problem = none ∧ fields.validData = true ∧
    ∃ finish ∈ finishes, finish.identity = identity ∧ finish.index < branches identity ∧
      proposedFields (branches identity) finish.index finish.ended finish.result = some fields

def Stored (key : ForkIdentity → String) (w : ForkSystem ι) (identity : ForkIdentity)
    (fields : DecisionFields) : Prop :=
  ∃ row, w.store.decisions.lookup (key identity) = some row ∧ row.payload = fields

/-- What a phase knows about the stored decision. -/
def PhaseBooks (key : ForkIdentity → String) (branches : ForkIdentity → ℕ) (w : ForkSystem ι)
    (identity : ForkIdentity) : Phase → Prop
  | .start | .failed _ => True
  | .replaying d | .draining d | .drained d => Stored key w identity d.toDecisionFields
  | .racing race => ∀ d, race.completion = some (.ok d) → Stored key w identity d.toDecisionFields
  | .claiming race => race.completion = none ∧ ∃ fields, Stored key w identity fields
  | .answered result => ∃ fields, Stored key w identity fields ∧ result = forkDecisionResult fields
  | .passed superseded => superseded = false → branches identity = 0

/-- What the database holds about the forks, and what the executors hold of it. -/
structure ForkBooks (key : ForkIdentity → String) (branches : ForkIdentity → ℕ)
    (forkOf : ι → ForkIdentity) (w : ForkSystem ι) : Prop where
  rows : ∀ identity row, w.store.decisions.lookup (key identity) = some row →
    Proposal branches w.finishes identity row.payload
  phases : ∀ i, PhaseBooks key branches w (forkOf i) (w.phases i)

/-- Before any executor runs. -/
structure ForkSystem.Initial (w : ForkSystem ι) : Prop where
  decisions : w.store.decisions = ∅
  phases : ∀ i, w.phases i = .start

theorem ForkSystem.Initial.books (h : w.Initial) : ForkBooks key branches forkOf w where
  rows := by
    intro identity row hrow
    rw [h.decisions] at hrow
    cases hrow
  phases := by
    intro i
    rw [h.phases i]
    trivial

theorem Proposal.mono {finishes finishes' : List Finish}
    (h : Proposal branches finishes identity fields) (hsub : finishes ⊆ finishes') :
    Proposal branches finishes' identity fields := by
  obtain ⟨hsound, hvalid, finish, hmem, hrest⟩ := h
  exact ⟨hsound, hvalid, finish, hsub hmem, hrest⟩

theorem Stored.step (h : Written key branches w w') (hs : Stored key w identity fields) :
    Stored key w' identity fields := by
  obtain ⟨row, hrow, hpayload⟩ := hs
  obtain ⟨row', hrow', hsame, -⟩ := h.keeps hrow
  exact ⟨row', hrow', hsame.trans hpayload⟩

theorem PhaseBooks.step (h : Written key branches w w') {phase : Phase}
    (hp : PhaseBooks key branches w identity phase) :
    PhaseBooks key branches w' identity phase := by
  cases phase with
  | start => trivial
  | failed => trivial
  | replaying => exact Stored.step h hp
  | draining => exact Stored.step h hp
  | drained => exact Stored.step h hp
  | racing => exact fun d hd => Stored.step h (hp d hd)
  | claiming =>
    obtain ⟨hnone, fields, hstored⟩ := hp
    exact ⟨hnone, fields, Stored.step h hstored⟩
  | answered =>
    obtain ⟨fields, hstored, hresult⟩ := hp
    exact ⟨fields, Stored.step h hstored, hresult⟩
  | passed => exact hp

theorem Written.rows (hkey : Function.Injective key) (h : Written key branches w w')
    (hsub : w.finishes ⊆ w'.finishes)
    (hb : ∀ identity row, w.store.decisions.lookup (key identity) = some row →
      Proposal branches w.finishes identity row.payload) :
    ∀ identity row, w'.store.decisions.lookup (key identity) = some row →
      Proposal branches w'.finishes identity row.payload := by
  intro identity row hrow
  cases h with
  | same decisions =>
    rw [decisions] at hrow
    exact (hb identity row hrow).mono hsub
  | claimed finish _ added inside proposed sound valid decisions =>
    rw [decisions] at hrow
    obtain hold | ⟨-, hk, rfl⟩ := Table.lookup_insertNew_cases hrow
    · exact (hb identity row hold).mono hsub
    · have hidentity := hkey hk
      subst hidentity
      exact ⟨sound, valid, finish, added, rfl, inside, proposed⟩
  | drained other decisions =>
    rw [decisions] at hrow
    by_cases hk : key identity = key other
    · rw [hk, Table.lookup_updateWhere_self, Option.map_eq_some_iff] at hrow
      obtain ⟨old, hold, rfl⟩ := hrow
      rw [← hk] at hold
      exact (hb identity old hold).mono hsub
    · rw [Table.lookup_updateWhere_ne hk] at hrow
      exact (hb identity row hrow).mono hsub

end Stored

/-! ## Every run -/

section Runs

variable {ι : Type} [DecidableEq ι] {key : ForkIdentity → String} {branches : ForkIdentity → ℕ}
  {forkOf : ι → ForkIdentity} {w w' : ForkSystem ι}

open ForkDecisions ForkSystem

theorem ForkStep.written (h : ForkStep key branches forkOf w w') : Written key branches w w' := by
  cases h with
  | replayedAfter i _ _ _ _ _ run =>
    exact .drained (forkOf i) (by rw [markDrained_eq_ok run]; rfl)
  | cleaned i _ _ _ _ run =>
    exact .drained (forkOf i) (by rw [markDrained_eq_ok run]; rfl)
  | failsClean i _ _ _ run =>
    exact .drained (forkOf i) (by rw [markDrained_eq_ok run]; rfl)
  | branchClaims i race index result fields _ _ _ _ alive _ proposed made run =>
    obtain ⟨hfields, hsound⟩ := ForkDecision.make_eq_ok made
    obtain ⟨hvalid, hstore⟩ := insertDecision_eq_ok run
    rw [hfields] at hvalid
    refine .claimed ⟨forkOf i, index, race.endedBy index, result⟩ fields
      List.mem_cons_self alive.1 proposed hsound hvalid ?_
    rw [hstore, hfields]
    rfl
  | _ => exact .same rfl

theorem ForkStep.finishes_subset (h : ForkStep key branches forkOf w w') :
    w.finishes ⊆ w'.finishes := by
  intro finish hfinish
  cases h with
  | branchDone => exact List.mem_cons_of_mem _ hfinish
  | branchClaims => exact List.mem_cons_of_mem _ hfinish
  | claimFails => exact List.mem_cons_of_mem _ hfinish
  | _ => exact hfinish

theorem ForkSteps.keeps (h : ForkSteps key branches forkOf w w') {k : String} {row : DecisionRow}
    (hrow : w.store.decisions.lookup k = some row) :
    ∃ row', w'.store.decisions.lookup k = some row' ∧ SameDecision row row' := by
  induction h with
  | refl => exact ⟨row, hrow, .refl row⟩
  | tail _ step ih =>
    obtain ⟨row₁, hrow₁, hpayload, hdrained⟩ := ih
    obtain ⟨row₂, hrow₂, hpayload', hdrained'⟩ := step.written.keeps hrow₁
    exact ⟨row₂, hrow₂, hpayload'.trans hpayload, fun h => hdrained' (hdrained h)⟩

theorem phases_goto {w₁ : ForkSystem ι} {i : ι} {phase : Phase}
    (hothers : ∀ j, PhaseBooks key branches w₁ (forkOf j) (w.phases j))
    (hphases : w₁.phases = w.phases) (hi : PhaseBooks key branches w₁ (forkOf i) phase) :
    ∀ j, PhaseBooks key branches (w₁.goto i phase) (forkOf j) ((w₁.goto i phase).phases j) := by
  intro j
  by_cases hj : j = i
  · subst hj
    rw [goto_self]
    exact hi
  · rw [goto_other hj, hphases]
    exact hothers j


theorem ForkStep.phases (h : ForkStep key branches forkOf w w')
    (hb : ForkBooks key branches forkOf w) :
    ∀ i, PhaseBooks key branches w' (forkOf i) (w'.phases i) := by
  have hothers : ∀ j, PhaseBooks key branches w' (forkOf j) (w.phases j) :=
    fun j => (hb.phases j).step h.written
  cases h with
  | empty _ _ none_there => exact phases_goto hothers rfl fun _ => none_there
  | found _ _ _ _ run =>
    obtain ⟨row, hrow, hpayload⟩ := (get_eq_some run).2
    exact phases_goto hothers rfl ⟨row, hrow, hpayload⟩
  | launch =>
    exact phases_goto hothers rfl fun d hd => (by cases hd)
  | replayed i _ phase =>
    have hi := hothers i
    rw [phase] at hi
    exact phases_goto hothers rfl ⟨_, hi, rfl⟩
  | replayedAfter i _ _ _ phase =>
    have hi := hothers i
    rw [phase] at hi
    exact phases_goto hothers rfl ⟨_, hi, rfl⟩
  | branchEndsFlow i _ _ phase =>
    have hi := hothers i
    rw [phase] at hi
    exact phases_goto hothers rfl hi
  | otherEndsFlow i _ phase =>
    have hi := hothers i
    rw [phase] at hi
    exact phases_goto hothers rfl hi
  | branchDone i _ _ _ _ phase _ quiet =>
    have hi := hothers i
    rw [phase] at hi
    refine phases_goto hothers rfl fun d hd => ?_
    -- the future is the old one, or it carries an error
    obtain ⟨-, rfl⟩ | ⟨e, -, rfl⟩ | ⟨-, rfl⟩ := quiet
    · exact hi d hd
    · split at hd
      · cases hd
      · exact hi d hd
    · exact hi d hd
  | branchClaims i race _ _ _ decision _ store _ _ free _ _ run =>
    obtain ⟨-, hstore⟩ := insertDecision_eq_ok run
    have hnone : race.completion = none := by
      have hfree := of_decide_eq_true free
      exact Option.isNone_iff_eq_none.mp hfree.1
    refine phases_goto hothers rfl ⟨hnone, ?_⟩
    -- the row of this claim, or the row that was there before
    cases hold : w.store.decisions.lookup (key (forkOf i)) with
    | none =>
      refine ⟨decision.toDecisionFields, ⟨_, false⟩, ?_, rfl⟩
      show store.decisions.lookup (key (forkOf i)) = _
      rw [hstore]
      exact Table.lookup_insertNew_self_of_none hold
    | some row =>
      refine ⟨row.payload, row, ?_, rfl⟩
      show store.decisions.lookup (key (forkOf i)) = _
      rw [hstore]
      exact Table.lookup_insertNew_of_some hold
  | claimFails =>
    exact phases_goto hothers rfl fun d hd => (by cases hd)
  | claimed i race decision _ run =>
    have hstored : Stored key (w.goto i (.racing (race.complete (.ok decision)))) (forkOf i)
        decision.toDecisionFields := recordedDecision_eq_ok run
    refine phases_goto hothers rfl fun d hd => ?_
    cases hd
    exact hstored
  | claimUnread => exact phases_goto hothers rfl fun d hd => (by cases hd)
  | decided i _ decision phase answer =>
    have hi := hothers i
    rw [phase] at hi
    exact phases_goto hothers rfl (hi decision answer)
  | superseded => exact phases_goto hothers rfl fun h => (by cases h)
  | cleaned i _ _ _ phase =>
    have hi := hothers i
    rw [phase] at hi
    exact phases_goto hothers rfl hi
  | answers i _ phase =>
    have hi := hothers i
    rw [phase] at hi
    exact phases_goto hothers rfl ⟨_, hi, rfl⟩
  | fails => exact phases_goto hothers rfl trivial
  | failsClean => exact phases_goto hothers rfl trivial
  | restart => exact phases_goto hothers rfl trivial
  | owners => exact hothers

theorem ForkSteps.books (hkey : Function.Injective key) (h : ForkSteps key branches forkOf w w')
    (hb : ForkBooks key branches forkOf w) : ForkBooks key branches forkOf w' := by
  induction h with
  | refl => exact hb
  | tail _ step ih =>
    exact ⟨step.written.rows hkey step.finishes_subset ih.rows, step.phases ih⟩

/-- An executor that gives up without a decision has no branches, or saw the workflow ended outside
the fork while nothing was decided. -/
theorem ForkStep.passes (h : ForkStep key branches forkOf w w') {i : ι} {superseded : Bool}
    (hbefore : w.phases i ≠ .passed superseded) (hafter : w'.phases i = .passed superseded) :
    branches (forkOf i) = 0 ∨ ∃ race, w.phases i = .racing race ∧ race.completion = none ∧
      race.flow = .endedElsewhere := by
  have hmoved : ∀ {w₁ : ForkSystem ι} {j : ι} {phase : Phase}, w₁.phases = w.phases →
      (w₁.goto j phase).phases i = .passed superseded → j = i ∧ phase = .passed superseded := by
    intro w₁ j phase hphases hgoto
    by_cases hj : i = j
    · subst hj
      exact ⟨rfl, goto_self.symm.trans hgoto⟩
    · rw [goto_other hj, hphases] at hgoto
      exact absurd hgoto hbefore
  cases h with
  | empty _ _ none_there =>
    obtain ⟨rfl, -⟩ := hmoved rfl hafter
    exact Or.inl none_there
  | superseded _ race phase answer ended =>
    obtain ⟨rfl, -⟩ := hmoved rfl hafter
    exact Or.inr ⟨race, phase, answer, ended⟩
  | owners => exact absurd hafter hbefore
  | _ =>
    obtain ⟨-, hphase⟩ := hmoved rfl hafter
    cases hphase

/-- **A competitive fork has one decision.**  In every state that executors reach: a stored
decision names a winner among the branches, the other branches to cancel and the outcome of the
winner as that branch ended; it is read back, and it never changes.  Every executor that has
answered, at any time, answered the stored decision's result; a committed claim has a decision;
and an executor returns without one only if the fork has no branches or the workflow was ended
outside the fork while nothing was decided. -/
theorem competitive_fork_one_decision (hkey : Function.Injective key) {w₀ : ForkSystem ι}
    (h₀ : w₀.Initial) (hs : ForkSteps key branches forkOf w₀ w) :
    (∀ (fork : ForkIdentity) (row : DecisionRow),
        w.store.decisions.lookup (key fork) = some row →
        row.payload.winner < branches fork ∧
        (∀ j, j ∈ row.payload.cancellationIntents ↔
          j < branches fork ∧ j ≠ row.payload.winner) ∧
        row.payload.cancellationIntents.Nodup ∧
        (∃ finish ∈ w.finishes, finish.identity = fork ∧ finish.index = row.payload.winner ∧
          branchResult finish.ended finish.result = some (forkDecisionResult row.payload)) ∧
        (∃ decision, (get key fork).run w.store = .ok (some decision, w.store) ∧
          decision.toDecisionFields = row.payload) ∧
        ∀ w' : ForkSystem ι, ForkSteps key branches forkOf w w' →
          (∃ row', w'.store.decisions.lookup (key fork) = some row' ∧
            row'.payload = row.payload) ∧
          ∀ (i : ι) (result : ForkResult), forkOf i = fork →
            w'.phases i = .answered result → result = forkDecisionResult row.payload) ∧
      (∀ (i : ι) (result : ForkResult), w.phases i = .answered result →
        ∃ row, w.store.decisions.lookup (key (forkOf i)) = some row ∧
          result = forkDecisionResult row.payload) ∧
      (∀ (i : ι) (race : Race), w.phases i = .claiming race →
        ∃ row, w.store.decisions.lookup (key (forkOf i)) = some row) ∧
      (∀ (i : ι) (superseded : Bool) (w' : ForkSystem ι), ForkStep key branches forkOf w w' →
        w.phases i ≠ .passed superseded → w'.phases i = .passed superseded →
        branches (forkOf i) = 0 ∨ ∃ race, w.phases i = .racing race ∧ race.completion = none ∧
          race.flow = .endedElsewhere) := by
  have hbooks : ForkBooks key branches forkOf w := hs.books hkey h₀.books
  refine ⟨?_, ?_, ?_, ?_⟩
  · intro fork row hrow
    obtain ⟨hsound, hvalid, finish, hmem, rfl, hinside, hproposed⟩ := hbooks.rows fork row hrow
    obtain ⟨hwinner, hintents⟩ := proposed_winner hproposed
    refine ⟨by rw [hwinner]; exact hinside, ?_, ?_, ?_, ?_, ?_⟩
    · intro j
      rw [hintents, hwinner]
      exact mem_otherBranches
    · rw [hintents]
      exact List.nodup_range.filter _
    · exact ⟨finish, hmem, rfl, hwinner.symm, forkDecisionResult_proposed hproposed⟩
    · exact ⟨_, get_of_row hrow hsound hvalid, rfl⟩
    · intro w' hlater
      obtain ⟨row', hrow', hsame, -⟩ := hlater.keeps hrow
      refine ⟨⟨row', hrow', hsame⟩, fun i result hi hanswered => ?_⟩
      have hphase := (hlater.books hkey hbooks).phases i
      rw [hanswered, hi] at hphase
      obtain ⟨fields, ⟨stored, hstored, rfl⟩, rfl⟩ := hphase
      rw [hrow', Option.some.injEq] at hstored
      rw [← hstored, hsame]
  · intro i result hanswered
    have hphase := hbooks.phases i
    rw [hanswered] at hphase
    obtain ⟨fields, ⟨row, hrow, rfl⟩, hresult⟩ := hphase
    exact ⟨row, hrow, hresult⟩
  · intro i race hclaiming
    have hphase := hbooks.phases i
    rw [hclaiming] at hphase
    obtain ⟨-, fields, row, hrow, -⟩ := hphase
    exact ⟨row, hrow⟩
  · intro i superseded w' hstep hbefore hafter
    exact hstep.passes hbefore hafter

end Runs

/-! ## Two executors of a fork with two branches -/

namespace Duel

open ForkDecisions ForkSystem

def fork : ForkIdentity where
  invocationId := "run"
  workflowFingerprint := "workflow"
  taskReference := "/do/0/race"
  occurrence := [("/do/0/race", 1)]
  named := by decide
  placed := by decide

/-- Keys from which the identity can be read back. -/
def key (identity : ForkIdentity) : String :=
  EffectIdentity.text
    { invocationId := identity.invocationId
      workflowFingerprint := identity.workflowFingerprint
      taskReference := identity.taskReference
      occurrence := identity.occurrence
      operation := "fork"
      named := ⟨identity.named.1, identity.named.2.1, identity.named.2.2, by decide⟩
      placed := identity.placed }

theorem key_injective : Function.Injective key := by
  intro a b h
  have hidentity := EffectIdentity.text_injective h
  simp only [EffectIdentity.mk.injEq] at hidentity
  cases a
  cases b
  simp only [ForkIdentity.mk.injEq]
  exact ⟨hidentity.1, hidentity.2.1, hidentity.2.2.1, hidentity.2.2.2.1⟩

/-- Nothing is stored, and both executors are about to start. -/
def start : ForkSystem Bool := ⟨⟨⟨0, ∅⟩, ∅⟩, fun _ => .start, []⟩

theorem initial : start.Initial := ⟨rfl, fun _ => rfl⟩

/-- Two branches. -/
abbrev Duels : ForkSystem Bool → ForkSystem Bool → Prop :=
  ForkSteps key (fun _ => 2) (fun _ => fork)

/-- Branch `index` of either executor returns this value. -/
def finished (index : ℕ) : BranchEnd := .finished (.int index) .null "operation"

/-- The decision that branch `index` proposes. -/
def proposal (index : ℕ) : DecisionFields :=
  ⟨index, .completed, .int index, .null, none, some "operation", otherBranches 2 index, none⟩

theorem proposal_one_sound : (proposal 1).problem = none := by decide +kernel

theorem proposal_zero_sound : (proposal 0).problem = none := by decide +kernel

/-- The decision of branch `index` as the executor builds it. -/
def decision (index : ℕ) (h : (proposal index).problem = none) : ForkDecision :=
  ⟨proposal index, false, h⟩

/-- The database after the first claim. -/
def stored : ForkStore :=
  ⟨⟨0, ∅⟩, (∅ : Table String DecisionRow).insertNew (key fork) ⟨proposal 1, false⟩⟩

theorem stored_lookup : stored.decisions.lookup (key fork) = some ⟨proposal 1, false⟩ :=
  Table.lookup_insertNew_self_of_none rfl

/-- Both executors run the branches; branch 1 of the second one claims first. -/
theorem duels_stored : ∃ w : ForkSystem Bool, Duels start w ∧ w.store = stored ∧
    w.phases false = .racing .fresh := by
  refine ⟨_, ((Relation.ReflTransGen.single (ForkStep.launch false rfl (by decide) rfl)).tail
    (ForkStep.launch true rfl (by decide) rfl)).tail
    (ForkStep.branchClaims true .fresh 1 (finished 1) (proposal 1)
      (decision 1 proposal_one_sound) none stored rfl (by decide) (by decide) rfl
      (ForkDecision.make_of_sound false proposal_one_sound)
      (insertDecision_unleased (by decide +kernel))), rfl, rfl⟩

/-- The first executor claims for its own branch 0, reads the other decision and answers it. -/
theorem duels_answered : ∃ (w : ForkSystem Bool) (result : ForkResult), Duels start w ∧
    w.phases false = .answered result := by
  obtain ⟨⟨store, phases, finishes⟩, hw, hstore, hphase⟩ := duels_stored
  have hlook : store.decisions.lookup (key fork) = some ⟨proposal 1, false⟩ := by
    have hsame : store = stored := hstore
    rw [hsame]
    exact stored_lookup
  have hlook' := Table.lookup_insertNew_of_some (k := key fork)
    (v := DecisionRow.mk (proposal 0) false) hlook
  have hget := get_of_row (s := { store with
    decisions := store.decisions.insertNew (key fork) ⟨proposal 0, false⟩ }) hlook'
    proposal_one_sound (by decide +kernel)
  have hclaim := hw.tail (ForkStep.branchClaims false .fresh 0 (finished 0) (proposal 0)
    (decision 0 proposal_zero_sound) none _ hphase (by decide) (by decide) rfl
    (ForkDecision.make_of_sound false proposal_zero_sound)
    (insertDecision_unleased (by decide +kernel)))
  have hread := hclaim.tail (ForkStep.claimed false _ _ goto_self
    (bind_eq_ok.mpr ⟨_, _, hget, rfl⟩))
  have hdecided := hread.tail
    (ForkStep.decided false _ _ goto_self rfl)
  have hclean := hdecided.tail (ForkStep.cleaned false _ none _ goto_self
    (markDrained_unleased hlook'))
  exact ⟨_, _, hclean.tail (ForkStep.answers false _ goto_self),
    goto_self⟩

end Duel

/-- In the duel above the executor that lost answers branch 1, and branch 0 is to be cancelled. -/
theorem competitive_fork_one_decision_duel :
    ∃ (w : ForkSystem Bool) (row : DecisionRow), Duel.Duels Duel.start w ∧
      w.store.decisions.lookup (Duel.key Duel.fork) = some row ∧ row.payload.winner < 2 ∧
      w.phases false = .answered (forkDecisionResult row.payload) := by
  obtain ⟨w, result, hw, hanswered⟩ := Duel.duels_answered
  obtain ⟨hrows, hanswers, -, -⟩ :=
    competitive_fork_one_decision Duel.key_injective Duel.initial hw
  obtain ⟨row, hrow, rfl⟩ := hanswers false result hanswered
  exact ⟨w, row, hw, hrow, (hrows _ row hrow).1, hanswered⟩

/-- Both branches come to their end after a task outside the fork has ended the workflow: nothing
is recorded, and the executor returns the data it was given. -/
theorem competitive_fork_without_decision :
    ∃ w : ForkSystem Bool, Duel.Duels Duel.start w ∧
      (∀ index < 2, ∃ finish ∈ w.finishes, finish.identity = Duel.fork ∧ finish.index = index ∧
        branchResult finish.ended finish.result = some (.returns (.int index))) ∧
      w.phases false = .passed true ∧ w.store.decisions.lookup (Duel.key Duel.fork) = none := by
  refine ⟨_, ((((Relation.ReflTransGen.single
    (ForkStep.launch false rfl (by decide) rfl)).tail
    (ForkStep.otherEndsFlow false .fresh rfl rfl)).tail
    (ForkStep.branchDone false _ _ 0 (Duel.finished 0) rfl (by decide)
      (Or.inr (Or.inr ⟨by decide, rfl⟩)))).tail
    (ForkStep.branchDone false _ _ 1 (Duel.finished 1) rfl (by decide)
      (Or.inr (Or.inr ⟨by decide, rfl⟩)))).tail
    (ForkStep.superseded false _ rfl rfl rfl), ?_, rfl, rfl⟩
  intro index hindex
  match index, hindex with
  | 0, _ => exact ⟨_, List.mem_cons_of_mem _ List.mem_cons_self, rfl, rfl, rfl⟩
  | 1, _ => exact ⟨_, List.mem_cons_self, rfl, rfl, rfl⟩
