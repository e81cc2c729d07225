/-
# Retention

`prune` looks at the first `limit` expired arrivals that no consumer has selected, and removes those
of them that nothing else refers to.  The limit is applied before the other conditions are looked
at, so what a sweep can reach depends on the older rows that it has to keep.
-/
import OpenWorkflowAgent.EventSteps

open Transaction

namespace EventStore

variable {codec : EventCodec} {limits : EventStoreLimits} {sys : System} {s s' : EventStore}

/-! ## Conditions -/

/-- A delivered publication of the scope carries the event of the row. -/
def PublishedAs (codec : EventCodec) (limits : EventStoreLimits) (s : EventStore) (row : InboxRow) :
    Prop :=
  ∃ published ∈ s.outbox, published.delivered = true ∧ published.scope = row.scope ∧
    ∃ e, PublicationOf codec limits published e ∧ e.source = row.source ∧ e.id = row.eventId

/-- The row is expired and nothing refers to it. -/
structure Removable (codec : EventCodec) (limits : EventStoreLimits) (s : EventStore) (cutoff : ℚ)
    (row : InboxRow) : Prop where
  stored : row ∈ s.inbox
  expired : row.createdAt < cutoff
  unselected : s.isSelected row = false
  unscanned : s.heldByListener row = false ∧ s.heldByConsumer row = false
  unpublished : ¬ PublishedAs codec limits s row
  disposable : ∀ e, ArrivalOf codec limits row e → s.approvalRetained e = false

/-- The expired rows without a selection that come before the row. -/
def expiredBefore (s : EventStore) (cutoff : ℚ) (row : InboxRow) : List InboxRow :=
  s.inbox.filter fun x =>
    (x.createdAt < cutoff ∧ s.isSelected x = false) ∧ x.sequence < row.sequence

theorem heldByPublication_spec (row : InboxRow) {rows : List OutboxRow}
    (h : ∀ published ∈ rows, ∃ e, PublicationOf codec limits published e) :
    ∃ b, heldByPublication codec row rows = .ok b ∧
      (b = true ↔ ∃ published ∈ rows, published.delivered = true ∧ published.scope = row.scope ∧
        ∃ e, PublicationOf codec limits published e ∧ e.source = row.source ∧
          e.id = row.eventId) := by
  induction rows with
  | nil => exact ⟨false, rfl, by simp⟩
  | cons published rows ih =>
    obtain ⟨b, hb, hiff⟩ := ih fun x hx => h x (List.mem_cons_of_mem published hx)
    obtain ⟨e, he⟩ := h published List.mem_cons_self
    have hhead : (∃ x, PublicationOf codec limits published x ∧ x.source = row.source ∧
        x.id = row.eventId) ↔ e.source = row.source ∧ e.id = row.eventId := by
      constructor
      · rintro ⟨x, hx, hsame⟩
        exact hx.unique he ▸ hsame
      · exact fun hsame => ⟨e, he, hsame⟩
    simp only [heldByPublication, List.mem_cons, exists_eq_or_imp, hhead]
    by_cases hscope : published.scope = row.scope ∧ published.delivered = true
    · rw [if_pos hscope]
      simp only [he.decode, bind, Except.bind]
      by_cases hsame : e.source = row.source ∧ e.id = row.eventId
      · rw [if_pos hsame]
        exact ⟨true, rfl, by simp [hscope, hsame]⟩
      · rw [if_neg hsame]
        exact ⟨b, hb, by simp [hiff, hsame]⟩
    · rw [if_neg hscope]
      refine ⟨b, hb, ?_⟩
      rw [hiff, or_iff_right]
      exact fun hc => hscope ⟨hc.2.1, hc.1⟩

theorem Tables.isRemovable (ht : Tables codec limits s) {cutoff : ℚ} {row : InboxRow}
    (hrow : row ∈ s.inbox) (hexpired : row.createdAt < cutoff)
    (hunselected : s.isSelected row = false) :
    ∃ b, EventStore.isRemovable codec row s = .ok b ∧
      (b = true ↔ Removable codec limits s cutoff row) := by
  obtain ⟨e, he⟩ := ht.inbox row hrow
  obtain ⟨held, hheld, hiff⟩ := heldByPublication_spec row ht.outbox
  have hdisposable : (∀ x, ArrivalOf codec limits row x → s.approvalRetained x = false) ↔
      s.approvalRetained e = false :=
    ⟨fun h => h e he, fun h x hx => hx.unique he ▸ h⟩
  have hremovable : Removable codec limits s cutoff row ↔ s.approvalRetained e = false ∧
      s.heldByListener row = false ∧ s.heldByConsumer row = false ∧ held = false := by
    have hpublished : ¬ PublishedAs codec limits s row ↔ held = false := by
      rw [PublishedAs, ← hiff, Bool.not_eq_true]
    constructor
    · intro h
      exact ⟨hdisposable.mp h.disposable, h.unscanned.1, h.unscanned.2, hpublished.mp h.unpublished⟩
    · rintro ⟨hd, hl, hc, hp⟩
      exact ⟨hrow, hexpired, hunselected, ⟨hl, hc⟩, hpublished.mpr hp, hdisposable.mpr hd⟩
  rw [hremovable]
  simp only [EventStore.isRemovable, he.decode, bind, Except.bind]
  by_cases hkept : s.approvalRetained e = true ∨ s.heldByListener row = true ∨
      s.heldByConsumer row = true
  · rw [if_pos hkept]
    refine ⟨false, rfl, ?_⟩
    simp only [Bool.false_eq_true, false_iff]
    rintro ⟨hd, hl, hc, -⟩
    rw [hd, hl, hc] at hkept
    simp at hkept
  · rw [if_neg hkept]
    simp only [hheld, pure, Except.pure]
    simp only [not_or, Bool.not_eq_true] at hkept
    exact ⟨!held, rfl, by simp [hkept]⟩

/-! ## The rows of a sweep -/

/-- In an increasing list, the first `n` elements are those with fewer than `n` smaller ones. -/
theorem mem_take_iff {α : Type} {f : α → ℕ} {l : List α} (h : l.Pairwise fun a b => f a < f b)
    {n : ℕ} {a : α} : a ∈ l.take n ↔ a ∈ l ∧ (l.filter fun b => f b < f a).length < n := by
  induction l generalizing n with
  | nil => simp
  | cons b l ih =>
    rw [List.pairwise_cons] at h
    cases n with
    | zero => simp
    | succ n =>
      rw [List.take_succ_cons, List.mem_cons, List.mem_cons, ih h.2]
      by_cases hab : a = b
      · -- nothing is smaller than the head
        subst hab
        have hnone : (l.filter fun x => decide (f x < f a)) = [] := by
          rw [List.filter_eq_nil_iff]
          intro x hx
          simpa using (h.1 x hx).le
        simp [hnone]
      · simp only [hab, false_or]
        refine and_congr_right fun ha => ?_
        rw [List.filter_cons, if_pos (by simpa using h.1 a ha), List.length_cons]
        omega

/-- The rows that a sweep looks at: the expired and unselected ones with few such rows before. -/
theorem Tables.mem_expired_iff (ht : Tables codec limits s) {cutoff : ℚ} {limit : ℕ}
    {row : InboxRow} : row ∈ s.expired cutoff limit ↔
      (row ∈ s.inbox ∧ row.createdAt < cutoff ∧ s.isSelected row = false) ∧
        (s.expiredBefore cutoff row).length < limit := by
  have hsorted : (s.inbox.filter fun x =>
      decide (x.createdAt < cutoff ∧ s.isSelected x = false)).Pairwise
        fun a b => a.sequence < b.sequence := ht.sorted.sublist List.filter_sublist
  have hle := hsorted.imp (S := fun a b : InboxRow => a.sequence ≤ b.sequence) fun h => h.le
  unfold expired expiredBefore
  rw [hle.insertionSort_eq, mem_take_iff hsorted, List.mem_filter, List.filter_filter,
    decide_eq_true_eq]
  refine and_congr_right fun _ => ?_
  rw [List.filter_congr (q := fun x => decide ((x.createdAt < cutoff ∧ s.isSelected x = false) ∧
    x.sequence < row.sequence))]
  intro x _
  rw [← Bool.decide_and]
  exact decide_eq_decide.mpr and_comm

theorem Tables.length_delete (ht : Tables codec limits s) {row : InboxRow} (hrow : row ∈ s.inbox) :
    (deleteArrival row.sequence s).inbox.length + 1 = s.inbox.length := by
  have hnodup : (s.inbox.map InboxRow.sequence).Nodup := by
    rw [List.Nodup, List.pairwise_map]
    exact ht.sorted.imp fun h => Nat.ne_of_lt h
  have hmem : row.sequence ∈ s.inbox.map InboxRow.sequence := List.mem_map_of_mem hrow
  have hmap : ((deleteArrival row.sequence s).inbox.map InboxRow.sequence) =
      (s.inbox.map InboxRow.sequence).erase row.sequence := by
    rw [hnodup.erase_eq_filter, List.filter_map]
    refine congrArg (List.map InboxRow.sequence) (List.filter_congr fun x _ => ?_)
    simp [bne, beq_eq_decide]
  have hlength := congrArg List.length hmap
  rw [List.length_map, List.length_erase_of_mem hmem, List.length_map] at hlength
  have hpos : 0 < s.inbox.length := List.length_pos_of_mem hrow
  omega

theorem pruneRows_spec {cutoff : ℚ} {rows : List InboxRow} (ht : Tables codec limits s)
    (hrows : ∀ row ∈ rows, row ∈ s.inbox ∧ row.createdAt < cutoff ∧ s.isSelected row = false)
    (hnodup : (rows.map InboxRow.sequence).Nodup) :
    ∃ n s', (pruneRows codec rows).run s = .ok (n, s') ∧
      s'.inbox.length + n = s.inbox.length ∧
      (0 < n ↔ ∃ row ∈ rows, Removable codec limits s cutoff row) := by
  induction rows generalizing s with
  | nil => exact ⟨0, s, rfl, rfl, by simp⟩
  | cons row rest ih =>
    rw [List.map_cons, List.nodup_cons] at hnodup
    obtain ⟨hrow, hexpired, hunselected⟩ := hrows row List.mem_cons_self
    have hothers := fun x hx => hrows x (List.mem_cons_of_mem row hx)
    have hne : ∀ x ∈ rest, x.sequence ≠ row.sequence := by
      intro x hx heq
      exact hnodup.1 (heq ▸ List.mem_map_of_mem hx)
    obtain ⟨b, hb, hiff⟩ := ht.isRemovable hrow hexpired hunselected
    simp only [pruneRows, run_eq_ok]
    cases b with
    | true =>
      obtain ⟨n, s', hrun, hlength, -⟩ := ih (ht.prune row.sequence)
        (fun x hx => ⟨List.mem_filter.mpr ⟨(hothers x hx).1, decide_eq_true (hne x hx)⟩,
          (hothers x hx).2⟩) hnodup.2
      have hdelete := ht.length_delete hrow
      refine ⟨1 + n, s', ⟨true, hb, 1, deleteArrival row.sequence s, ?_, n, s', hrun, rfl, rfl⟩,
        by omega, ?_⟩
      · simp only [deleteIf, if_true, run_eq_ok, and_self]
      · refine ⟨fun _ => ⟨row, List.mem_cons_self, hiff.mp rfl⟩, fun _ => by omega⟩
    | false =>
      obtain ⟨n, s', hrun, hlength, hn⟩ := ih ht hothers hnodup.2
      refine ⟨0 + n, s', ⟨false, hb, 0, s, ?_, n, s', hrun, rfl, rfl⟩, by omega, ?_⟩
      · simp only [deleteIf, Bool.false_eq_true, if_false, pure_eq_ok, and_self]
      · rw [Nat.zero_add, hn]
        simp only [List.mem_cons, exists_eq_or_imp]
        rw [or_iff_right]
        exact fun hc => absurd (hiff.mpr hc) (by simp)

/-- **Progress of retention.**  In every reachable store a sweep with a valid limit commits, and it
removes a row exactly if some removable row has fewer than `limit` expired and unselected rows
before it. -/
theorem prune_removes_iff (hs : Reachable sys s) (now : ℚ) (limit : ℕ)
    (hlimit : 0 < limit ∧ limit ≤ sys.limits.scanBatch) :
    ∃ n s', (prune sys.codec sys.limits now limit).run s = .ok (n, s') ∧
      s'.inbox.length + n = s.inbox.length ∧
      (0 < n ↔ ∃ row, Removable sys.codec sys.limits s (now - sys.limits.retentionSeconds) row ∧
        (s.expiredBefore (now - sys.limits.retentionSeconds) row).length < limit) := by
  have ht := hs.tables
  obtain ⟨n, s', hrun, hlength, hiff⟩ := pruneRows_spec ht
    (fun row hrow => (ht.mem_expired_iff.mp hrow).1)
    (nodup_expired ht (now - sys.limits.retentionSeconds) limit)
  refine ⟨n, s', ?_, hlength, hiff.trans ?_⟩
  · unfold prune transaction
    simp only [run_eq_ok, mapError_eq_ok]
    exact ⟨by omega, s, ht.serialize, hrun⟩
  · constructor
    · rintro ⟨row, hrow, hremovable⟩
      exact ⟨row, hremovable, (ht.mem_expired_iff.mp hrow).2⟩
    · rintro ⟨row, hremovable, hfew⟩
      exact ⟨row, ht.mem_expired_iff.mpr ⟨⟨hremovable.stored, hremovable.expired,
        hremovable.unselected⟩, hfew⟩, hremovable⟩

def eventOf (id scope : String) : Operation :=
  .ingest [("type", .str "t"), ("id", .str id), ("time", .str "now")] "source" scope ⟨"", "", 0⟩

/-- Two events of different scopes; an active consumer of the first scope has not scanned its
event. -/
def pinned : EventStore :=
  ((Operation.pin "consumer" ⟨"a", 0, true⟩ []).run plainCodec .standard).after
    (((eventOf "2" "b").run plainCodec .standard).after
      (((eventOf "1" "a").run plainCodec .standard).after initial))

theorem pinned_reachable : Reachable plainSystem pinned :=
  (((initial_reachable plainSystem).call (eventOf "1" "a") trivial).call
    (eventOf "2" "b") trivial).call (.pin "consumer" ⟨"a", 0, true⟩ []) trivial

def envelopeOf (id : String) : EventEnvelope :=
  ⟨id, "source", "t", "now", none, none, none, .null, [], false⟩

/-- The row of an event of the samples. -/
def rowOf (sequence : ℕ) (id scope : String) : InboxRow :=
  ⟨sequence, scope, "source", id, (envelopeOf id).value, "hash", "hash", 0, 1⟩

theorem pinned_inbox : pinned.inbox = [rowOf 1 "1" "a", rowOf 2 "2" "b"] := by decide +kernel

theorem pinned_removable :
    Removable plainCodec .standard pinned (100000 - 86400) (rowOf 2 "2" "b") := by
  refine ⟨?_, ?_, ?_, ⟨?_, ?_⟩, ?_, ?_⟩
  · rw [pinned_inbox]
    simp
  · show (0 : ℚ) < 100000 - 86400
    norm_num
  · decide +kernel
  · decide +kernel
  · decide +kernel
  · have houtbox : pinned.outbox = [] := by decide +kernel
    rintro ⟨published, hpublished, -⟩
    rw [houtbox] at hpublished
    cases hpublished
  · intro e he
    have hdecode : decodeEnvelope plainCodec (rowOf 2 "2" "b").envelope (rowOf 2 "2" "b").digest =
        .ok (envelopeOf "2") := by decide +kernel
    rw [Except.ok.inj (he.decode.symm.trans hdecode)]
    decide +kernel

/-- A sweep of one row finds the pinned event and removes nothing. -/
theorem prune_stuck_behind_pin :
    Reachable plainSystem pinned ∧
      (∃ row, Removable plainCodec .standard pinned (100000 - 86400) row) ∧
      (prune plainCodec .standard 100000 1).answer pinned = .ok 0 :=
  ⟨pinned_reachable, ⟨_, pinned_removable⟩, by decide +kernel⟩

/-- A sweep of two rows reaches the second event. -/
theorem prune_behind_pin : ∃ n s', (prune plainCodec .standard 100000 2).run pinned = .ok (n, s') ∧
    0 < n := by
  obtain ⟨n, s', hrun, -, hiff⟩ := prune_removes_iff pinned_reachable 100000 2 (by decide)
  refine ⟨n, s', hrun, hiff.mpr ⟨_, pinned_removable, ?_⟩⟩
  decide +kernel

end EventStore
