/-
# Execution leases fence writes

Any number of owners acquire, renew and release the execution lease of an
invocation and open owned write transactions under it, operators cancel
invocations, and the clock of the datasource moves on.  An owned write transaction
is not atomic here: it checks the guard when it opens, holds the lock of the
ownership row until it commits or aborts, and everything else may happen in
between, except a statement that needs the locked row.  (PostgreSQL lets several
transactions share the lock of a row, SQLite only one; the model lets them share.)

The auxiliary fields of `World` record the leases that were answered, the terms
(invocation and generation) that were released or revoked, and the transactions
that committed.
-/
import OpenWorkflowAgent.Invocations

open Transaction Ownership Invocations

namespace LeaseFencing

/-- An open owned write transaction: its serial number, its lease, and the time at
which its guard held. -/
structure OpenTransaction where
  serial : ℕ
  lease : ExecutionLease
  openedAt : ℚ
  deriving DecidableEq

/-- A term of office: an invocation and a generation. -/
abbrev Term := String × ℕ

def termOf (lease : ExecutionLease) : Term := (lease.invocationId, lease.generation)

/-- The tables, the open transactions, and what happened so far. -/
structure World where
  store : RuntimeStore
  holders : List OpenTransaction
  /-- Auxiliary: the number of transactions opened so far. -/
  opened : ℕ
  /-- Auxiliary: the leases that `acquire` and `renew` answered. -/
  issued : List ExecutionLease
  /-- Auxiliary: the terms that `release` ended. -/
  released : List Term
  /-- Auxiliary: the terms that a cancellation ended. -/
  revokedTerms : List Term
  /-- Auxiliary: the transactions that committed. -/
  committed : List OpenTransaction

/-- The time of the datasource. -/
def World.clock (w : World) : ℚ := w.store.owners.clock

def World.row (w : World) (invocationId : String) : Option OwnershipRow :=
  w.store.owners.ownership.lookup invocationId

/-- The stored generation of an invocation; none is `0`. -/
def World.generation (w : World) (invocationId : String) : ℕ :=
  match w.row invocationId with
  | some row => row.generation
  | none => 0

/-- No open transaction holds the row of the invocation. -/
def World.Unlocked (w : World) (invocationId : String) : Prop :=
  ∀ t ∈ w.holders, t.lease.invocationId ≠ invocationId

/-- What a committed cancellation adds to the revoked terms. -/
def revokedBy (w : World) (invocationId : String) (status : InvocationStatus) : List Term :=
  match w.row invocationId with
  | some row => if status = .cancelled then [(invocationId, row.generation)] else []
  | none => []

/-- What happened in one step. -/
inductive Event where
  | acquired (lease : ExecutionLease)
  | renewed (lease : ExecutionLease)
  | released (lease : ExecutionLease)
  | cancelled (invocationId : String)
  | opened (t : OpenTransaction)
  | committed (t : OpenTransaction)
  | other

/-- One step of the world.  An operation that raises changes nothing, so only
committed runs are steps. -/
inductive Step (sha256 : Snapshot → String) : World → Event → World → Prop
  | tick (w : World) (clock : ℚ) (h : w.clock ≤ clock) :
      Step sha256 w .other
        { w with store := { w.store with owners := { w.store.owners with clock := clock } } }
  | acquire (w : World) (invocationId engine fingerprint owner : String) (seconds : ℚ)
      (lease : ExecutionLease) (owners : OwnershipStore)
      (hrun : (acquire invocationId engine fingerprint owner seconds).run w.store.owners
        = .ok (lease, owners))
      (hfree : w.Unlocked invocationId) :
      Step sha256 w (.acquired lease)
        { w with store := { w.store with owners := owners }, issued := lease :: w.issued }
  | renew (w : World) (lease renewed : ExecutionLease) (seconds : ℚ) (owners : OwnershipStore)
      (hrun : (renew lease seconds).run w.store.owners = .ok (renewed, owners))
      (hfree : w.Unlocked lease.invocationId) :
      Step sha256 w (.renewed renewed)
        { w with store := { w.store with owners := owners }, issued := renewed :: w.issued }
  | release (w : World) (lease : ExecutionLease) (owners : OwnershipStore)
      (hrun : (release lease).run w.store.owners = .ok ((), owners))
      (hfree : w.Unlocked lease.invocationId) :
      Step sha256 w (.released lease)
        { w with
          store := { w.store with owners := owners }
          released := termOf lease :: w.released }
  | cancel (w : World) (handle : ExecutionHandle) (expected : Snapshot)
      (original : InvocationRecord) (error : Json) (revision : String) (instant : ℚ)
      (parent : Option ExecutionHandle) (lease : Option ExecutionLease)
      (result : InvocationRecord × Snapshot) (store : RuntimeStore)
      (hrun : (cancelTransaction sha256 handle expected original error revision instant parent
        lease).run w.store = .ok (result, store))
      (hfree : w.Unlocked handle.record.identity.invocationId) :
      Step sha256 w (.cancelled handle.record.identity.invocationId)
        { w with
          store := store
          revokedTerms := revokedBy w handle.record.identity.invocationId
            result.2.record.status ++ w.revokedTerms }
  | openOwned (w : World) (lease : ExecutionLease) (invocationId fingerprint : String)
      (store : RuntimeStore)
      (hrun : (enterOwned RuntimeStore.owners (some lease) invocationId fingerprint).run w.store
        = .ok ((), store)) :
      Step sha256 w (.opened ⟨w.opened, lease, w.clock⟩)
        { w with
          store := store
          holders := ⟨w.opened, lease, w.clock⟩ :: w.holders
          opened := w.opened + 1 }
  | commit (w : World) (t : OpenTransaction) (store : RuntimeStore) (hopen : t ∈ w.holders)
      (howners : store.owners = w.store.owners) :
      Step sha256 w (.committed t)
        { w with
          store := store
          holders := w.holders.erase t
          committed := t :: w.committed }
  | abort (w : World) (t : OpenTransaction) :
      Step sha256 w .other { w with holders := w.holders.erase t }
  | unrelated (w : World) (store : RuntimeStore) (howners : store.owners = w.store.owners) :
      Step sha256 w .other { w with store := store }

def Steps (sha256 : Snapshot → String) : World → World → Prop :=
  Relation.ReflTransGen fun w w' => ∃ e, Step sha256 w e w'

/-- A world in which nothing was acquired yet, at a time after the epoch. -/
structure Initial (w : World) : Prop where
  clock_nonneg : 0 ≤ w.clock
  row_none : ∀ id, w.row id = none
  holders : w.holders = []
  issued : w.issued = []
  released : w.released = []
  revokedTerms : w.revokedTerms = []
  committed : w.committed = []

/-! ## What a step does to one row -/

/-- What one step may do to the ownership row of one invocation. -/
inductive RowStep (clock : ℚ) : Option OwnershipRow → Option OwnershipRow → Prop
  | same (row : Option OwnershipRow) : RowStep clock row row
  | first (row : OwnershipRow) (hgen : row.generation = 1)
      (hexp : row.expiresAt ≤ clock + maxDuration) : RowStep clock none (some row)
  | takeover (row next : OwnershipRow) (hexpired : row.expiresAt ≤ clock)
      (hgen : next.generation = row.generation + 1)
      (hexp : next.expiresAt ≤ clock + maxDuration) : RowStep clock (some row) (some next)
  | extend (row : OwnershipRow) (expiresAt : ℚ) (hlive : clock < row.expiresAt)
      (hexp : expiresAt ≤ clock + maxDuration) :
      RowStep clock (some row) (some { row with expiresAt := expiresAt })
  | expire (row : OwnershipRow) : RowStep clock (some row) (some { row with expiresAt := 0 })

theorem rowStep_acquiredRow {engine fingerprint owner : String} {clock seconds : ℚ}
    {stored : Option OwnershipRow} {row : OwnershipRow} (hmax : seconds ≤ maxDuration)
    (h : acquiredRow engine fingerprint owner clock seconds stored = some row) :
    RowStep clock stored (some row) := by
  cases stored with
  | none =>
    cases h
    exact .first _ rfl (by show clock + seconds ≤ _; linarith)
  | some old =>
    simp only [acquiredRow] at h
    split at h
    · rename_i hc
      cases h
      exact .takeover old _ hc.1 rfl (by show clock + seconds ≤ _; linarith)
    · cases h

variable {w w' : World} {e : Event}

theorem row_of_owners (h : w'.store.owners = w.store.owners) (id : String) :
    w'.row id = w.row id := by
  unfold World.row
  rw [h]

theorem rowStep_put {key : String} {row : OwnershipRow}
    (howners : w'.store.owners =
      { w.store.owners with ownership := w.store.owners.ownership.put key row })
    (hstep : RowStep w.clock (w.row key) (some row)) (hfree : w.Unlocked key) (id : String) :
    w'.row id = w.row id ∨
      (w.Unlocked id ∧ w'.clock = w.clock ∧ RowStep w.clock (w.row id) (w'.row id)) := by
  by_cases hid : id = key
  · subst hid
    have hrow : w'.row id = some row := by
      unfold World.row
      rw [howners]
      exact Table.lookup_put_self
    refine Or.inr ⟨hfree, ?_, by rw [hrow]; exact hstep⟩
    unfold World.clock
    rw [howners]
  · refine Or.inl ?_
    unfold World.row
    rw [howners]
    exact Table.lookup_put_ne hid

variable {sha256 : Snapshot → String}

/-- A committed cancellation expires the row of a cancelled invocation, if there is
one, and leaves the ownership table alone otherwise. -/
theorem cancel_owners {handle : ExecutionHandle} {expected : Snapshot} {original : InvocationRecord}
    {error : Json} {revision : String} {instant : ℚ} {parent : Option ExecutionHandle}
    {lease : Option ExecutionLease} {s s' : RuntimeStore} {result : InvocationRecord × Snapshot}
    (h : (cancelTransaction sha256 handle expected original error revision instant parent
      lease).run s = .ok (result, s')) :
    s'.owners = s.owners ∧ (result.2.record.status = .cancelled →
        s.owners.ownership.lookup handle.record.identity.invocationId = none) ∨
      ∃ row, s.owners.ownership.lookup handle.record.identity.invocationId = some row ∧
        s'.owners.clock = s.owners.clock ∧ ∀ id, s'.owners.ownership.lookup id =
          if id = handle.record.identity.invocationId then some { row with expiresAt := 0 }
          else s.owners.ownership.lookup id := by
  obtain ⟨-, -, -, hident, howners⟩ := cancelBody_eq_ok (cancelTransaction_eq_ok h)
  split at howners
  · rename_i hc
    obtain ⟨row, hrow⟩ := Option.isSome_iff_exists.mp hc.1
    refine Or.inr ⟨row, hrow, by rw [howners]; rfl, fun id => ?_⟩
    rw [howners]
    show (Table.updateWhere _ _ _ _).lookup _ = _
    by_cases hid : id = handle.record.identity.invocationId
    · subst hid
      rw [if_pos rfl, Table.lookup_updateWhere_self, hrow]
      simp [hident row hrow]
    · rw [if_neg hid, Table.lookup_updateWhere_ne hid]
  · rename_i hc
    refine Or.inl ⟨howners, fun hcan => ?_⟩
    cases hrow : s.owners.ownership.lookup handle.record.identity.invocationId with
    | none => rfl
    | some => exact absurd ⟨by rw [hrow]; rfl, hcan⟩ hc

/-- **One step, one row.**  A step leaves a row as it is, or the row is unlocked and
changes in one of four ways. -/
theorem step_row (h : Step sha256 w e w') (id : String) :
    w'.row id = w.row id ∨
      (w.Unlocked id ∧ w'.clock = w.clock ∧ RowStep w.clock (w.row id) (w'.row id)) := by
  cases h with
  | tick => exact Or.inl rfl
  | acquire _ _ _ _ _ _ _ hrun hfree =>
    obtain ⟨-, hmax, row, hrow, -, rfl⟩ := acquire_eq_ok hrun
    exact rowStep_put rfl (rowStep_acquiredRow hmax hrow) hfree id
  | renew lease _ seconds _ hrun hfree =>
    obtain ⟨-, hmax, row, hrow, -, rfl⟩ := renew_eq_ok hrun
    obtain ⟨hlook, -, hlive, -⟩ := guardedRow_eq_some.mp hrow
    refine rowStep_put rfl ?_ hfree id
    rw [show w.row lease.invocationId = some row from hlook]
    exact .extend row _ hlive (by show w.clock + seconds ≤ _; linarith)
  | release lease _ hrun hfree =>
    obtain ⟨row, hrow, rfl⟩ := release_eq_ok hrun
    obtain ⟨hlook, -, -⟩ := guardedRow_eq_some.mp hrow
    refine rowStep_put rfl ?_ hfree id
    rw [show w.row lease.invocationId = some row from hlook]
    exact .expire row
  | cancel handle _ _ _ _ _ _ _ _ _ hrun hfree =>
    rcases cancel_owners hrun with ⟨howners, -⟩ | ⟨row, hrow, hclock, hrows⟩
    · exact Or.inl (row_of_owners howners id)
    · by_cases hid : id = handle.record.identity.invocationId
      · subst hid
        refine Or.inr ⟨hfree, hclock, ?_⟩
        unfold World.row
        rw [hrow, hrows, if_pos rfl]
        exact .expire row
      · refine Or.inl ?_
        unfold World.row
        rw [hrows, if_neg hid]
  | openOwned _ _ _ _ hrun =>
    obtain ⟨rfl, -⟩ := enterOwned_eq_ok.mp hrun
    exact Or.inl rfl
  | commit _ _ _ howners => exact Or.inl (row_of_owners howners id)
  | abort => exact Or.inl rfl
  | unrelated _ howners => exact Or.inl (row_of_owners howners id)

theorem step_clock (h : Step sha256 w e w') : w.clock ≤ w'.clock := by
  cases h with
  | tick _ hle => exact hle
  | acquire _ _ _ _ _ _ _ hrun =>
    obtain ⟨-, -, row, -, -, rfl⟩ := acquire_eq_ok hrun
    exact le_refl _
  | renew _ _ _ _ hrun =>
    obtain ⟨-, -, row, -, -, rfl⟩ := renew_eq_ok hrun
    exact le_refl _
  | release _ _ hrun =>
    obtain ⟨row, -, rfl⟩ := release_eq_ok hrun
    exact le_refl _
  | cancel _ _ _ _ _ _ _ _ _ store hrun =>
    show w.store.owners.clock ≤ store.owners.clock
    rcases cancel_owners hrun with ⟨howners, -⟩ | ⟨row, -, hclock, -⟩
    · rw [howners]
    · rw [hclock]
  | openOwned _ _ _ _ hrun =>
    obtain ⟨rfl, -⟩ := enterOwned_eq_ok.mp hrun
    exact le_refl _
  | commit _ store _ howners =>
    show w.store.owners.clock ≤ store.owners.clock
    rw [howners]
  | abort => exact le_refl _
  | unrelated store howners =>
    show w.store.owners.clock ≤ store.owners.clock
    rw [howners]

/-! ## Terms that have ended -/

/-- A term has ended: a later one was acquired, or its row has expired. -/
def Lapsed (w : World) (t : Term) : Prop :=
  ∃ row, w.row t.1 = some row ∧ t.2 ≤ row.generation ∧
    (t.2 = row.generation → row.expiresAt ≤ w.clock)

/-- The row carries the term, or a later one. -/
def Recorded (w : World) (lease : ExecutionLease) : Prop :=
  ∃ row, w.row lease.invocationId = some row ∧ lease.generation ≤ row.generation ∧
    (lease.generation = row.generation → rowOf lease row)

variable {lease : ExecutionLease}

theorem Lapsed.writeGuard_eq_false {w : World} (h : Lapsed w (termOf lease)) :
    writeGuard lease w.store.owners = false := by
  rw [Bool.eq_false_iff]
  intro hguard
  obtain ⟨row, hrow, hof, hlive⟩ := writeGuard_iff.mp hguard
  obtain ⟨row', hrow', -, hexp⟩ := h
  have heq : some row = some row' := hrow.symm.trans hrow'
  cases heq
  exact absurd hlive.1 (not_lt.mpr (hexp hof.2.2.2.symm))

theorem Lapsed.step {t : Term} (hclock : 0 ≤ w.clock) (h : Lapsed w t)
    (hs : Step sha256 w e w') : Lapsed w' t := by
  obtain ⟨row, hrow, hle, hexp⟩ := h
  have htime := step_clock hs
  rcases step_row hs t.1 with hsame | ⟨-, hclk, hstep⟩
  · exact ⟨row, by rw [hsame, hrow], hle, fun heq => (hexp heq).trans htime⟩
  · rw [hrow] at hstep
    generalize hnew : w'.row t.1 = new at hstep
    cases hstep with
    | same => exact ⟨row, hnew, hle, fun heq => (hexp heq).trans htime⟩
    | takeover _ next =>
      exact ⟨next, hnew, by omega, fun heq => by omega⟩
    | extend _ _ hlive =>
      -- a row can only be extended while it is live, so the term is an older one
      refine ⟨_, hnew, hle, fun heq => ?_⟩
      exact absurd hlive (not_lt.mpr (hexp heq))
    | expire => exact ⟨_, hnew, hle, fun _ => hclock.trans htime⟩

theorem Recorded.step (h : Recorded w lease) (hs : Step sha256 w e w') :
    Recorded w' lease := by
  obtain ⟨row, hrow, hle, hof⟩ := h
  rcases step_row hs lease.invocationId with hsame | ⟨-, -, hstep⟩
  · exact ⟨row, by rw [hsame, hrow], hle, hof⟩
  · rw [hrow] at hstep
    generalize hnew : w'.row lease.invocationId = new at hstep
    cases hstep with
    | same => exact ⟨row, hnew, hle, hof⟩
    | takeover _ next =>
      exact ⟨next, hnew, by omega, fun heq => by omega⟩
    | extend => exact ⟨_, hnew, hle, hof⟩
    | expire => exact ⟨_, hnew, hle, hof⟩

theorem step_generation_le (h : Step sha256 w e w') (id : String) :
    w.generation id ≤ w'.generation id := by
  unfold World.generation
  rcases step_row h id with hsame | ⟨-, -, hstep⟩
  · rw [hsame]
  · generalize w.row id = old at hstep ⊢
    generalize w'.row id = new at hstep ⊢
    cases hstep with
    | same => exact le_refl _
    | first => exact Nat.zero_le _
    | takeover row next =>
      show row.generation ≤ next.generation
      omega
    | extend => exact le_refl _
    | expire => exact le_refl _

theorem acquire_generation {invocationId engine fingerprint owner : String} {seconds : ℚ}
    {owners owners' : OwnershipStore}
    (h : (acquire invocationId engine fingerprint owner seconds).run owners
      = .ok (lease, owners')) :
    lease.invocationId = invocationId ∧
      (∃ row, owners'.ownership.lookup invocationId = some row ∧ rowOf lease row ∧
        row.generation = match owners.ownership.lookup invocationId with
          | some old => old.generation + 1
          | none => 1) := by
  obtain ⟨-, -, row, hrow, hlease, rfl⟩ := acquire_eq_ok h
  obtain ⟨hid, hof, -⟩ := leaseOfRow_eq_ok hlease
  refine ⟨hid, row, Table.lookup_put_self, hof, ?_⟩
  cases hold : owners.ownership.lookup invocationId with
  | none =>
    rw [hold] at hrow
    cases hrow
    rfl
  | some =>
    rw [hold] at hrow
    simp only [acquiredRow] at hrow
    split at hrow
    · cases hrow
      rfl
    · cases hrow

/-! ## The invariant -/

/-- What holds in every reachable world. -/
structure Inv (w : World) : Prop where
  clock_nonneg : 0 ≤ w.clock
  rows : ∀ id row, w.row id = some row → row.expiresAt ≤ w.clock + maxDuration
  issued : ∀ l ∈ w.issued, Recorded w l
  released : ∀ t ∈ w.released, Lapsed w t
  revokedTerms : ∀ t ∈ w.revokedTerms, Lapsed w t
  serials : ∀ t ∈ w.holders ++ w.committed, t.serial < w.opened
  /-- An open transaction holds the row of its lease, and its guard held. -/
  holders : ∀ t ∈ w.holders, t.openedAt ≤ w.clock ∧
    ∃ row, w.row t.lease.invocationId = some row ∧ rowOf t.lease row ∧
      t.openedAt < row.expiresAt
  in_office : ∀ t ∈ w.holders, termOf t.lease ∉ w.released ∧ termOf t.lease ∉ w.revokedTerms

theorem inv_initial {w : World} (h : Initial w) : Inv w := by
  refine ⟨h.clock_nonneg, ?_, ?_, ?_, ?_, ?_, ?_, ?_⟩
  · simp [h.row_none]
  · simp [h.issued]
  · simp [h.released]
  · simp [h.revokedTerms]
  · simp [h.holders, h.committed]
  · simp [h.holders]
  · simp [h.holders]

/-- No expiry lies further ahead than a lease can be. -/
theorem Inv.rows_step (h : Inv w) (hs : Step sha256 w e w') (id : String)
    (row : OwnershipRow) (hrow : w'.row id = some row) :
    row.expiresAt ≤ w'.clock + maxDuration := by
  have htime := step_clock hs
  rcases step_row hs id with hsame | ⟨-, hclk, hstep⟩
  · rw [hsame] at hrow
    exact (h.rows id row hrow).trans (by linarith)
  · rw [hrow] at hstep
    rw [hclk]
    generalize hold : w.row id = old at hstep
    cases hstep with
    | same => exact h.rows id row hold
    | first _ _ hmax => exact hmax
    | takeover _ _ _ _ hmax => exact hmax
    | extend _ _ _ hmax => exact hmax
    | expire =>
      have hmax : (0 : ℚ) ≤ maxDuration := by norm_num [maxDuration]
      exact add_nonneg h.clock_nonneg hmax

theorem Inv.holder_row (hs : Step sha256 w e w') {t : OpenTransaction}
    (ht : t ∈ w.holders) :
    w'.row t.lease.invocationId = w.row t.lease.invocationId := by
  rcases step_row hs t.lease.invocationId with hsame | ⟨hfree, -, -⟩
  · exact hsame
  · exact absurd rfl (hfree t ht)

theorem Inv.holders_step (h : Inv w) (hs : Step sha256 w e w')
    {t : OpenTransaction} (ht : t ∈ w.holders) :
    t.openedAt ≤ w'.clock ∧ ∃ row, w'.row t.lease.invocationId = some row ∧
      rowOf t.lease row ∧ t.openedAt < row.expiresAt := by
  obtain ⟨hopened, row, hrow, hof, hlive⟩ := h.holders t ht
  exact ⟨hopened.trans (step_clock hs), row, by rw [Inv.holder_row hs ht, hrow], hof, hlive⟩

/-- What a step leaves to show: only the parts of the world that it adds to. -/
theorem Inv.of_step (h : Inv w) (hs : Step sha256 w e w')
    (hissued : ∀ l ∈ w'.issued, l ∈ w.issued ∨ Recorded w' l)
    (hreleased : ∀ t ∈ w'.released, t ∈ w.released ∨ (Lapsed w' t ∧ w.Unlocked t.1))
    (hrevoked : ∀ t ∈ w'.revokedTerms, t ∈ w.revokedTerms ∨ (Lapsed w' t ∧ w.Unlocked t.1))
    (hserials : ∀ t ∈ w'.holders ++ w'.committed, t.serial < w'.opened)
    (hholders : ∀ t ∈ w'.holders, t ∈ w.holders) : Inv w' := by
  refine ⟨h.clock_nonneg.trans (step_clock hs), h.rows_step hs, ?_, ?_, ?_, hserials, ?_, ?_⟩
  · intro l hl
    rcases hissued l hl with hl | hl
    · exact (h.issued l hl).step hs
    · exact hl
  · intro t ht
    rcases hreleased t ht with ht | ht
    · exact (h.released t ht).step h.clock_nonneg hs
    · exact ht.1
  · intro t ht
    rcases hrevoked t ht with ht | ht
    · exact (h.revokedTerms t ht).step h.clock_nonneg hs
    · exact ht.1
  · exact fun t ht => h.holders_step hs (hholders t ht)
  · intro t ht
    obtain ⟨hrel, hrev⟩ := h.in_office t (hholders t ht)
    refine ⟨fun hmem => ?_, fun hmem => ?_⟩
    · rcases hreleased _ hmem with hold | ⟨-, hfree⟩
      · exact hrel hold
      · exact hfree t (hholders t ht) rfl
    · rcases hrevoked _ hmem with hold | ⟨-, hfree⟩
      · exact hrev hold
      · exact hfree t (hholders t ht) rfl

theorem Inv.openOwned {w : World} (h : Inv w) (hguard : writeGuard lease w.store.owners = true) :
    Inv { w with
      holders := ⟨w.opened, lease, w.clock⟩ :: w.holders
      opened := w.opened + 1 } := by
  obtain ⟨row, hrow, hof, hlive⟩ := writeGuard_iff.mp hguard
  have hlapsed : ¬ Lapsed w (termOf lease) := by
    intro hl
    rw [hl.writeGuard_eq_false] at hguard
    cases hguard
  refine ⟨h.clock_nonneg, h.rows, h.issued, h.released, h.revokedTerms, ?_, ?_, ?_⟩
  · intro t ht
    rw [List.cons_append] at ht
    rcases List.mem_cons.mp ht with rfl | ht
    · exact Nat.lt_succ_self _
    · exact (h.serials t ht).trans (Nat.lt_succ_self _)
  · intro t ht
    rcases List.mem_cons.mp ht with rfl | ht
    · exact ⟨le_refl _, row, hrow, hof, hlive.1⟩
    · exact h.holders t ht
  · intro t ht
    rcases List.mem_cons.mp ht with rfl | ht
    · exact ⟨fun hm => hlapsed (h.released _ hm), fun hm => hlapsed (h.revokedTerms _ hm)⟩
    · exact h.in_office t ht

/-- **One step.**  Every step keeps the invariant. -/
theorem Inv.step (h : Inv w) (hs : Step sha256 w e w') : Inv w' := by
  have hstep := hs
  cases hs with
  | tick =>
    exact h.of_step hstep (fun _ => Or.inl) (fun _ => Or.inl) (fun _ => Or.inl) h.serials
      fun _ => id
  | acquire _ _ _ _ _ _ _ hrun =>
    refine h.of_step hstep (fun l hl => ?_) (fun _ => Or.inl) (fun _ => Or.inl) h.serials
      fun _ => id
    rcases List.mem_cons.mp hl with rfl | hl
    · obtain ⟨rfl, row, hrow, hof, -⟩ := acquire_generation hrun
      exact Or.inr ⟨row, hrow, hof.2.2.2.ge, fun _ => hof⟩
    · exact Or.inl hl
  | renew _ _ _ _ hrun =>
    refine h.of_step hstep (fun l hl => ?_) (fun _ => Or.inl) (fun _ => Or.inl) h.serials
      fun _ => id
    rcases List.mem_cons.mp hl with rfl | hl
    · obtain ⟨-, -, row, hrow, hlease, rfl⟩ := renew_eq_ok hrun
      obtain ⟨hid, hof, -⟩ := leaseOfRow_eq_ok hlease
      refine Or.inr ⟨_, ?_, hof.2.2.2.ge, fun _ => hof⟩
      rw [hid]
      exact Table.lookup_put_self
    · exact Or.inl hl
  | release _ _ hrun hfree =>
    refine h.of_step hstep (fun _ => Or.inl) (fun t ht => ?_) (fun _ => Or.inl) h.serials
      fun _ => id
    rcases List.mem_cons.mp ht with rfl | ht
    · obtain ⟨row, hrow, rfl⟩ := release_eq_ok hrun
      obtain ⟨-, hof, -⟩ := guardedRow_eq_some.mp hrow
      exact Or.inr ⟨⟨_, Table.lookup_put_self, hof.2.2.2.ge, fun _ => h.clock_nonneg⟩, hfree⟩
    · exact Or.inl ht
  | cancel handle expected original error revision instant parent lease result store hrun hfree =>
    refine h.of_step hstep (fun _ => Or.inl) (fun _ => Or.inl) (fun t ht => ?_) h.serials
      fun _ => id
    rcases List.mem_append.mp ht with ht | ht
    · unfold revokedBy at ht
      split at ht
      · rename_i row hrow
        split at ht
        · rename_i hcan
          rw [List.mem_singleton] at ht
          subst ht
          rcases cancel_owners hrun with ⟨-, hnone⟩ | ⟨row', hrow', hclock, hrows⟩
          · cases hrow.symm.trans (hnone hcan)
          · cases hrow.symm.trans hrow'
            refine Or.inr ⟨⟨_, (hrows _).trans (if_pos rfl), le_refl _, fun _ => ?_⟩, hfree⟩
            show (0 : ℚ) ≤ store.owners.clock
            rw [hclock]
            exact h.clock_nonneg
        · cases ht
      · cases ht
    · exact Or.inl ht
  | openOwned lease _ _ _ hrun =>
    obtain ⟨rfl, hg⟩ := enterOwned_eq_ok.mp hrun
    exact h.openOwned (hg lease rfl).2.2
  | commit _ _ hopen =>
    refine h.of_step hstep (fun _ => Or.inl) (fun _ => Or.inl) (fun _ => Or.inl)
      (fun t' ht' => ?_) fun t' ht' => List.mem_of_mem_erase ht'
    refine h.serials t' ?_
    rcases List.mem_append.mp ht' with ht' | ht'
    · exact List.mem_append_left _ (List.mem_of_mem_erase ht')
    · rcases List.mem_cons.mp ht' with rfl | ht'
      · exact List.mem_append_left _ hopen
      · exact List.mem_append_right _ ht'
  | abort =>
    refine h.of_step hstep (fun _ => Or.inl) (fun _ => Or.inl) (fun _ => Or.inl)
      (fun t' ht' => ?_) fun t' ht' => List.mem_of_mem_erase ht'
    refine h.serials t' ?_
    rcases List.mem_append.mp ht' with ht' | ht'
    · exact List.mem_append_left _ (List.mem_of_mem_erase ht')
    · exact List.mem_append_right _ ht'
  | unrelated =>
    exact h.of_step hstep (fun _ => Or.inl) (fun _ => Or.inl) (fun _ => Or.inl) h.serials
      fun _ => id

/-- **Any run.**  The invariant holds in every reachable world. -/
theorem Inv.steps (h : Inv w) (hs : Steps sha256 w w') : Inv w' := by
  induction hs with
  | refl => exact h
  | tail _ hstep ih =>
    obtain ⟨e, he⟩ := hstep
    exact ih.step he

/-! ## Dead leases -/

/-- A lease that lost its authority. -/
inductive Dead (w : World) (lease : ExecutionLease) : Prop
  | superseded (row : OwnershipRow) (hrow : w.row lease.invocationId = some row)
      (hgen : lease.generation < row.generation)
  | released (h : termOf lease ∈ w.released)
  | expired (row : OwnershipRow) (hrow : w.row lease.invocationId = some row)
      (hof : rowOf lease row) (hexp : row.expiresAt ≤ w.clock)
  | revoked (h : termOf lease ∈ w.revokedTerms)

theorem Dead.lapsed {w : World} (hinv : Inv w) (h : Dead w lease) :
    Lapsed w (termOf lease) := by
  cases h with
  | superseded row hrow hgen =>
    exact ⟨row, hrow, hgen.le, fun heq => absurd heq hgen.ne⟩
  | released h => exact hinv.released _ h
  | expired row hrow hof hexp => exact ⟨row, hrow, hof.2.2.2.ge, fun _ => hexp⟩
  | revoked h => exact hinv.revokedTerms _ h

theorem Lapsed.owned_raises {α : Type} {w : World} (h : Lapsed w (termOf lease))
    (invocationId fingerprint : String) (body : Transaction OwaError RuntimeStore α) :
    (∃ e, (ownedWriteTransaction RuntimeStore.owners (some lease) invocationId fingerprint
        body).answer w.store = .error e) ∧
      (ownedWriteTransaction RuntimeStore.owners (some lease) invocationId fingerprint
        body).after w.store = w.store := by
  cases hans : (ownedWriteTransaction RuntimeStore.owners (some lease) invocationId fingerprint
      body).answer w.store with
  | error e => exact ⟨⟨e, rfl⟩, after_of_error hans⟩
  | ok u =>
    obtain ⟨s', hok⟩ := answer_eq_ok.mp hans
    have hguard := ((ownedWriteTransaction_eq_ok.mp hok).1 lease rfl).2.2
    rw [h.writeGuard_eq_false] at hguard
    cases hguard

/-- A transaction of a term that is not in office was opened before `n`. -/
def OpenedBefore (n : ℕ) (t : Term) (w : World) : Prop :=
  ∀ x ∈ w.holders ++ w.committed, termOf x.lease = t → x.serial < n

theorem OpenedBefore.step {n : ℕ} {t : Term} (hlapsed : Lapsed w t)
    (h : OpenedBefore n t w) (hs : Step sha256 w e w') :
    OpenedBefore n t w' := by
  cases hs with
  | tick => exact h
  | acquire => exact h
  | renew => exact h
  | release => exact h
  | cancel =>
    exact h
  | openOwned lease _ _ _ hrun =>
    intro x hx hxt
    rw [List.cons_append] at hx
    rcases List.mem_cons.mp hx with rfl | hx
    · -- the guard of an ended term fails, so it cannot open a transaction
      obtain ⟨rfl, hg⟩ := enterOwned_eq_ok.mp hrun
      have hguard := (hg lease rfl).2.2
      rw [← hxt] at hlapsed
      rw [hlapsed.writeGuard_eq_false] at hguard
      cases hguard
    · exact h x hx hxt
  | commit _ _ hopen =>
    intro x hx hxt
    refine h x ?_ hxt
    rcases List.mem_append.mp hx with hx | hx
    · exact List.mem_append_left _ (List.mem_of_mem_erase hx)
    · rcases List.mem_cons.mp hx with rfl | hx
      · exact List.mem_append_left _ hopen
      · exact List.mem_append_right _ hx
  | abort =>
    intro x hx hxt
    refine h x ?_ hxt
    rcases List.mem_append.mp hx with hx | hx
    · exact List.mem_append_left _ (List.mem_of_mem_erase hx)
    · exact List.mem_append_right _ hx
  | unrelated => exact h

/-- From the moment a term has ended, no later transaction is opened under it. -/
theorem lapsed_steps {t : Term} (hinv : Inv w) (hlapsed : Lapsed w t)
    (hs : Steps sha256 w w') :
    Lapsed w' t ∧ OpenedBefore w.opened t w' := by
  induction hs with
  | refl => exact ⟨hlapsed, fun x hx _ => hinv.serials x hx⟩
  | tail hpre hstep ih =>
    obtain ⟨e, he⟩ := hstep
    exact ⟨ih.1.step (hinv.steps hpre).clock_nonneg he, ih.2.step ih.1 he⟩

theorem step_acquired (h : Step sha256 w (.acquired lease) w') :
    w.generation lease.invocationId < w'.generation lease.invocationId ∧
      lease.generation = w'.generation lease.invocationId := by
  cases h with
  | acquire _ _ _ _ _ _ _ hrun =>
    obtain ⟨rfl, row, hrow, hof, hgen⟩ := acquire_generation hrun
    simp only [World.generation, World.row, hrow, hgen, hof.2.2.2.symm]
    cases w.store.owners.ownership.lookup lease.invocationId with
    | none => exact ⟨Nat.zero_lt_one, trivial⟩
    | some => exact ⟨Nat.lt_succ_self _, trivial⟩

/-- **Execution-lease fencing.**  In every world reached from an initial one: each
acquisition strictly raises the stored generation and nothing lowers it; at most one
owner and generation pass the write guard; a transaction opened under a superseded,
released, expired or revoked lease raises, writes nothing and never commits; and a
transaction that does commit still holds the row of its lease, under which its guard
held when it opened. -/
theorem execution_lease_fencing {sha256 : Snapshot → String} {w₀ w : World} (h₀ : Initial w₀)
    (hw : Steps sha256 w₀ w) :
    (∀ e w', Step sha256 w e w' →
      (∀ id, w.generation id ≤ w'.generation id) ∧
      ∀ lease, e = .acquired lease →
        w.generation lease.invocationId < w'.generation lease.invocationId ∧
          lease.generation = w'.generation lease.invocationId) ∧
    (∀ l₁ l₂ : ExecutionLease, l₁.invocationId = l₂.invocationId →
      writeGuard l₁ w.store.owners = true → writeGuard l₂ w.store.owners = true →
      l₁.owner = l₂.owner ∧ l₁.generation = l₂.generation) ∧
    (∀ lease, Dead w lease → ∀ w', Steps sha256 w w' →
      (∀ (α : Type) (id fingerprint : String) (body : Transaction OwaError RuntimeStore α),
        (∃ e, (ownedWriteTransaction RuntimeStore.owners (some lease) id fingerprint
          body).answer w'.store = .error e) ∧
        (ownedWriteTransaction RuntimeStore.owners (some lease) id fingerprint
          body).after w'.store = w'.store) ∧
      ∀ t ∈ w'.holders ++ w'.committed, termOf t.lease = termOf lease → t.serial < w.opened) ∧
    ∀ t w', Step sha256 w (.committed t) w' →
      termOf t.lease ∉ w.released ∧ termOf t.lease ∉ w.revokedTerms ∧
        ∃ row, w.row t.lease.invocationId = some row ∧ rowOf t.lease row ∧
          t.openedAt < row.expiresAt := by
  have hinv := (inv_initial h₀).steps hw
  refine ⟨fun e w' hstep => ⟨step_generation_le hstep, ?_⟩, ?_, ?_, ?_⟩
  · rintro lease rfl
    exact step_acquired hstep
  · intro l₁ l₂ hid h₁ h₂
    obtain ⟨row₁, hrow₁, hof₁, -⟩ := writeGuard_iff.mp h₁
    obtain ⟨row₂, hrow₂, hof₂, -⟩ := writeGuard_iff.mp h₂
    rw [hid] at hrow₁
    cases hrow₁.symm.trans hrow₂
    exact ⟨hof₁.2.2.1.symm.trans hof₂.2.2.1, hof₁.2.2.2.symm.trans hof₂.2.2.2⟩
  · intro lease hdead w' hs
    obtain ⟨hlapsed, hbefore⟩ := lapsed_steps hinv (hdead.lapsed hinv) hs
    exact ⟨fun α id fingerprint body => hlapsed.owned_raises id fingerprint body, hbefore⟩
  · intro t w' hstep
    cases hstep with
    | commit _ _ hopen =>
      obtain ⟨hrel, hrev⟩ := hinv.in_office t hopen
      exact ⟨hrel, hrev, (hinv.holders t hopen).2⟩

/-- An empty world at time `1`. -/
def sampleWorld : World := ⟨⟨⟨1, ∅⟩, ∅, ∅, ∅, []⟩, [], 0, [], [], [], []⟩

/-- The same world at a later time, with one lease held. -/
def sampleHeld (clock : ℚ) (lease : ExecutionLease) (row : OwnershipRow) : World :=
  ⟨⟨⟨clock, Table.put "i" row ∅⟩, ∅, ∅, ∅, []⟩, [], 0, [lease], [], [], []⟩

/-- A lease that was acquired for ten seconds is dead twenty seconds later: its
transactions raise. -/
theorem execution_lease_fencing_expired :
    ∃ w lease, Steps (fun _ => "") sampleWorld w ∧ Dead w lease ∧
      ∀ body : Transaction OwaError RuntimeStore Unit,
        (ownedWriteTransaction RuntimeStore.owners (some lease) "i" "f" body).after w.store
          = w.store := by
  have hacquired : ∃ r, (acquire "i" "adk" "f" "0123456789abcdef0123456789abcdef" 10).run
      sampleWorld.store.owners = .ok r := by
    cases h : (acquire "i" "adk" "f" "0123456789abcdef0123456789abcdef" 10).run
        sampleWorld.store.owners with
    | ok r => exact ⟨r, rfl⟩
    | error e =>
      have hok : ((acquire "i" "adk" "f" "0123456789abcdef0123456789abcdef" 10).run
        sampleWorld.store.owners).toBool = true := by decide +kernel
      rw [h] at hok
      cases hok
  obtain ⟨⟨lease, owners⟩, hrun⟩ := hacquired
  obtain ⟨-, -, row, hrow, hlease, rfl⟩ := acquire_eq_ok hrun
  obtain ⟨hid, hof, -⟩ := leaseOfRow_eq_ok hlease
  have hexp : row.expiresAt = 1 + 10 := by
    have hfirst : some row = some ⟨"adk", "f", "0123456789abcdef0123456789abcdef", 1, 1 + 10⟩ :=
      hrow.symm
    rw [Option.some.inj hfirst]
  have hacq : Step (fun _ => "") sampleWorld (.acquired lease) (sampleHeld 1 lease row) :=
    .acquire sampleWorld "i" "adk" "f" _ 10 lease _ hrun (by simp [World.Unlocked, sampleWorld])
  have htick : Step (fun _ => "") (sampleHeld 1 lease row) .other (sampleHeld 21 lease row) :=
    .tick _ 21 (by
      show (1 : ℚ) ≤ 21
      norm_num)
  have hsteps : Steps (fun _ => "") sampleWorld (sampleHeld 21 lease row) :=
    (Relation.ReflTransGen.single ⟨_, hacq⟩).tail ⟨_, htick⟩
  have hdead : Dead (sampleHeld 21 lease row) lease := by
    refine .expired row ?_ hof ?_
    · rw [hid]
      exact Table.lookup_put_self
    · rw [hexp]
      show (1 + 10 : ℚ) ≤ 21
      norm_num
  refine ⟨_, lease, hsteps, hdead, fun body => ?_⟩
  have hinitial : Initial sampleWorld := by
    refine ⟨?_, fun _ => rfl, rfl, rfl, rfl, rfl, rfl⟩
    show (0 : ℚ) ≤ 1
    norm_num
  exact (((execution_lease_fencing hinitial hsteps).2.2.1 lease hdead _
    Relation.ReflTransGen.refl).1 Unit "i" "f" body).2

end LeaseFencing
