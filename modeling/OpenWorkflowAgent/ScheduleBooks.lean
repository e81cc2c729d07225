/-
# The books of a schedule

The occurrences of an `every`, `cron` or `after` schedule are numbered without gaps, and
their nominal instants follow the calendar of the schedule: for `every` the `n`-th one is
`n` intervals after the creation, for `cron` each is later than the one before, and for
`after` each is one interval after the recorded completion of the one before.

`Books` is the invariant.  It also holds what `_get` checks, so `_get` never rejects a
schedule that the store itself wrote.  An occurrence only evolves (`Evolves`): its nominal
instant and its input stay, and an invocation that is bound to it stays bound to it.
-/
import OpenWorkflowAgent.ScheduleSteps

namespace Schedules

variable {A : Type} {sv : ScheduleServices A} {s s' : ScheduleStore A}

/-! ## What the writes do to a lookup -/

/-- A row as `_save` leaves it. -/
def savedRow (record : ScheduleRecord) (row : ScheduleRow) : ScheduleRow :=
  { row with
    payload := payloadOf record
    status := record.status
    nextRunAt := record.nextRunAt
    leaseUntil := record.leaseUntil }

variable {key : String × Occurrence} {f : SlotRow → SlotRow} {row : SlotRow}
  {record : ScheduleRecord}

theorem lookup_setSlot {k : String × Occurrence} : (setSlot key f s).slots.lookup k =
    (s.slots.lookup k).map fun row => if k = key then f row else row := by
  refine Table.lookup_updateWhere.trans ?_
  simp

theorem lookup_setSlot_self (h : s.slots.lookup key = some row) :
    (setSlot key f s).slots.lookup key = some (f row) := by
  rw [lookup_setSlot, h, Option.map_some, if_pos rfl]

variable {k : String × Occurrence} {id : String} {a b : SlotRow} {interval : ℚ}

theorem lookup_setSlot_ne (h : k ≠ key) : (setSlot key f s).slots.lookup k = s.slots.lookup k :=
  Table.lookup_updateWhere_ne h

theorem lookup_setSlot_none (h : s.slots.lookup k = none) :
    (setSlot key f s).slots.lookup k = none := by
  rw [lookup_setSlot, h]
  rfl

theorem lookup_putRecord (record : ScheduleRecord) : (putRecord record s).schedules.lookup id =
    (s.schedules.lookup id).map fun row =>
      if id = record.definition.scheduleId then savedRow record row else row := by
  refine Table.lookup_updateWhere.trans ?_
  simp only [and_true]
  rfl

theorem lookup_putRecord_ne (h : id ≠ record.definition.scheduleId) :
    (putRecord record s).schedules.lookup id = s.schedules.lookup id :=
  Table.lookup_updateWhere_ne h

theorem lookup_putRecord_self (record : ScheduleRecord) {row : ScheduleRow}
    (h : s.schedules.lookup record.definition.scheduleId = some row) :
    (putRecord record s).schedules.lookup record.definition.scheduleId =
      some (savedRow record row) := by
  rw [lookup_putRecord, h, Option.map_some, if_pos rfl]

theorem putRecord_persists (h : s.schedules.lookup id ≠ none) :
    (putRecord record s).schedules.lookup id ≠ none := by
  rwa [lookup_putRecord, ne_eq, Option.map_eq_none_iff]

/-- What holds of the saved row and of every other row holds of all rows. -/
theorem putRecord_rows {P : String → ScheduleRow → Prop}
    (hself : ∀ row, s.schedules.lookup record.definition.scheduleId = some row →
      P record.definition.scheduleId (savedRow record row))
    (hother : ∀ id row, id ≠ record.definition.scheduleId → s.schedules.lookup id = some row →
      P id row) (id : String) (row : ScheduleRow)
    (h : (putRecord record s).schedules.lookup id = some row) : P id row := by
  rw [lookup_putRecord, Option.map_eq_some_iff] at h
  obtain ⟨old, hold, rfl⟩ := h
  split
  · next hid =>
      subst hid
      exact hself old hold
  · next hid => exact hother id old hid hold

/-! ## How a slot evolves -/

/-- What no operation undoes in a slot. -/
structure Evolves (a b : SlotRow) : Prop where
  nominalAt : b.nominalAt = a.nominalAt
  inputPayload : b.inputPayload = a.inputPayload
  generation : a.generation ≤ b.generation
  invocation : ∀ i, a.invocationId = some i → b.invocationId = some i
  terminal : a.state.terminal = true → b.state = a.state

theorem Evolves.refl (a : SlotRow) : Evolves a a :=
  ⟨rfl, rfl, le_rfl, fun _ h => h, fun _ => rfl⟩

theorem Evolves.trans {c : SlotRow} (h : Evolves a b) (h' : Evolves b c) : Evolves a c where
  nominalAt := h'.nominalAt.trans h.nominalAt
  inputPayload := h'.inputPayload.trans h.inputPayload
  generation := h.generation.trans h'.generation
  invocation i hi := h'.invocation i (h.invocation i hi)
  terminal ht := by
    have hb : b.state = a.state := h.terminal ht
    have hbt : b.state.terminal = true := by
      rw [hb]
      exact ht
    rw [h'.terminal hbt, hb]

theorem Evolves.open_of_open (h : Evolves a b) (hb : b.state.terminal = false) :
    a.state.terminal = false := by
  by_contra ha
  have hat : a.state.terminal = true := by simpa using ha
  rw [h.terminal hat, hat] at hb
  cases hb

/-- Every slot that is stored stays stored and evolves. -/
def SlotsEvolve (s s' : ScheduleStore A) : Prop :=
  ∀ key a, s.slots.lookup key = some a → ∃ b, s'.slots.lookup key = some b ∧ Evolves a b

theorem SlotsEvolve.refl_of_eq (h : s'.slots = s.slots) : SlotsEvolve s s' := by
  intro key a ha
  rw [h]
  exact ⟨a, ha, Evolves.refl a⟩

theorem SlotsEvolve.trans {s₁ s₂ s₃ : ScheduleStore A} (h : SlotsEvolve s₁ s₂)
    (h' : SlotsEvolve s₂ s₃) : SlotsEvolve s₁ s₃ := by
  intro key a ha
  obtain ⟨b, hb, hab⟩ := h key a ha
  obtain ⟨c, hc, hbc⟩ := h' key b hb
  exact ⟨c, hc, hab.trans hbc⟩

/-- Slots of which each evolves on its own. -/
theorem SlotsEvolve.of_map {g : String × Occurrence → SlotRow → SlotRow}
    (hmap : ∀ k, s'.slots.lookup k = (s.slots.lookup k).map (g k))
    (h : ∀ k row, s.slots.lookup k = some row → Evolves row (g k row)) : SlotsEvolve s s' := by
  intro k a ha
  exact ⟨g k a, by rw [hmap, ha]; rfl, h k a ha⟩

theorem claimedSlot_evolves (request : ClaimRequest) (row : SlotRow) :
    Evolves row (claimedSlot request row) :=
  ⟨rfl, rfl, Nat.le_succ _, fun _ h => h, fun _ => rfl⟩

theorem boundSlot_evolves (i : String) (hopen : row.state.terminal = false)
    (hunbound : row.invocationId = none) : Evolves row (boundSlot i row) where
  nominalAt := rfl
  inputPayload := rfl
  generation := le_rfl
  invocation j hj := by
    rw [hunbound] at hj
    cases hj
  terminal ht := by
    rw [hopen] at ht
    cases ht

theorem open_evolves (hopen : row.state.terminal = false) (state : SlotState) (lease : Option ℚ) :
    Evolves row { row with state := state, leaseUntil := lease } where
  nominalAt := rfl
  inputPayload := rfl
  generation := le_rfl
  invocation _ hi := hi
  terminal ht := by
    rw [hopen] at ht
    cases ht

theorem cancelledSlot_evolves (row : SlotRow) : Evolves row (cancelledSlot row) := by
  unfold cancelledSlot
  split
  · exact Evolves.refl row
  · next hlive =>
      refine ⟨rfl, rfl, Nat.le_succ _, fun _ h => h, fun ht => ?_⟩
      -- of the terminal states only the cancelled one is left
      cases hstate : row.state <;> simp_all [SlotState.terminal]

theorem cancelledSlot_terminal (row : SlotRow) : (cancelledSlot row).state.terminal = true := by
  unfold cancelledSlot
  split
  · next hdone =>
      rcases hdone with h | h
      · rw [h]
        rfl
      · rw [h]
        rfl
  · rfl

theorem cancelledSlot_invocationId (row : SlotRow) :
    (cancelledSlot row).invocationId = row.invocationId := by
  unfold cancelledSlot
  split
  · rfl
  · rfl

theorem lookup_cancelSlots : (cancelSlots id s).slots.lookup key =
      (s.slots.lookup key).map fun row => if key.1 = id then cancelledSlot row else row :=
  Table.lookup_mapRows

theorem cancelSlots_evolve (id : String) : SlotsEvolve s (cancelSlots id s) := by
  refine SlotsEvolve.of_map (fun _ => lookup_cancelSlots) fun k row _ => ?_
  split
  · exact cancelledSlot_evolves row
  · exact Evolves.refl row

/-! ## The invariant -/

/-- The instant `t` is one interval after the recorded completion of the invocation that
is bound to the slot. -/
def FollowsOn (s : ScheduleStore A) (a : SlotRow) (interval t : ℚ) : Prop :=
  ∃ i value, a.invocationId = some i ∧ s.runtime.terminalTimes.lookup i = some value ∧
    t = value.completedAt + interval

/-- The occurrences of a schedule that is not an event trigger. -/
structure Calendar (s : ScheduleStore A) (id : String) (r : ScheduleRecord) : Prop where
  occurrences : ∀ occ, s.slots.lookup (id, occ) ≠ none ↔
    ∃ n, occ = .slot n ∧ 1 ≤ n ∧ n < r.nextSequence
  increasing : r.definition.kind ≠ .after → ∀ m n a b, m < n →
    s.slots.lookup (id, .slot m) = some a → s.slots.lookup (id, .slot n) = some b →
    a.nominalAt < b.nominalAt
  upcoming : r.definition.kind ≠ .after → ∀ n a, s.slots.lookup (id, .slot n) = some a →
    a.nominalAt < r.nextRunAt
  every : r.definition.kind = .every → ∃ start interval, s.createdAt.lookup id = some start ∧
    r.definition.intervalSeconds = some interval ∧
    (∀ n a, s.slots.lookup (id, .slot n) = some a → a.nominalAt = start + n * interval) ∧
    r.nextRunAt = start + r.nextSequence * interval
  after : r.definition.kind = .after → ∃ interval, r.definition.intervalSeconds = some interval ∧
    (∀ n a b, s.slots.lookup (id, .slot n) = some a → s.slots.lookup (id, .slot (n + 1)) = some b →
      FollowsOn s a interval b.nominalAt) ∧
    (r.nextRunAt ≠ 0 → ∀ n a, n + 1 = r.nextSequence → s.slots.lookup (id, .slot n) = some a →
      FollowsOn s a interval r.nextRunAt)
  /-- Only the last occurrence of an `after` schedule is open, and no next one is due. -/
  last_open : r.definition.kind = .after → ∀ n a, s.slots.lookup (id, .slot n) = some a →
    a.state.terminal = false → n + 1 = r.nextSequence ∧ r.nextRunAt = 0

/-- What is kept about one schedule. -/
structure RowBooks (sv : ScheduleServices A) (s : ScheduleStore A) (id : String)
    (row : ScheduleRow) : Prop where
  scheduleId : row.payload.definition.scheduleId = id
  status : row.payload.status = row.status
  nextRunAt : row.payload.nextRunAt = row.nextRunAt
  valid : definitionValid row.payload.definition = true
  definition : s.definitions.lookup id = some row.payload.definition
  profile : ∃ profile, profileOf sv row.payload.definition = .ok profile ∧
    profile.kind = row.payload.definition.kind ∧
    profile.intervalSeconds = row.payload.definition.intervalSeconds
  first : 1 ≤ row.payload.nextSequence
  calendar : row.payload.definition.kind ≠ .on → Calendar s id row.payload

/-- **The invariant of the schedule tables.** -/
structure Books (sv : ScheduleServices A) (s : ScheduleStore A) : Prop where
  rows : ∀ id row, s.schedules.lookup id = some row → RowBooks sv s id row
  owned : ∀ key a, s.slots.lookup key = some a → s.schedules.lookup key.1 ≠ none
  triggers : ∀ id c a, s.slots.lookup (id, .trigger c) = some a → a.invocationId ≠ none
  unique : ∀ k k' a b i, s.slots.lookup k = some a → s.slots.lookup k' = some b →
    a.invocationId = some i → b.invocationId = some i → k = k'
  bindings : ∀ key saved, s.bindings.lookup key = some saved →
    ∃ a, s.slots.lookup key = some a ∧ a.invocationId = some saved.invocationId

theorem Initial.books (h : Initial s) : Books sv s where
  rows id row hrow := by
    rw [h.schedules] at hrow
    cases hrow
  owned key a ha := by
    rw [h.slots] at ha
    cases ha
  triggers id c a ha := by
    rw [h.slots] at ha
    cases ha
  unique k k' a b i ha := by
    rw [h.slots] at ha
    cases ha
  bindings key saved hsaved := by
    rw [h.bindings] at hsaved
    cases hsaved

/-! ## What keeps the calendar of a schedule -/

/-- Recorded terminal times stay. -/
def TimesKept (s s' : ScheduleStore A) : Prop :=
  ∀ i v, s.runtime.terminalTimes.lookup i = some v → s'.runtime.terminalTimes.lookup i = some v

theorem FollowsOn.kept {t : ℚ} (h : FollowsOn s a interval t) (hab : Evolves a b)
    (htimes : TimesKept s s') : FollowsOn s' b interval t := by
  obtain ⟨i, value, hi, hvalue, ht⟩ := h
  exact ⟨i, value, hab.invocation i hi, htimes i value hvalue, ht⟩

/-- No slot of the schedule is new, and all of them evolve. -/
structure SlotsKept (s s' : ScheduleStore A) (id : String) : Prop where
  evolve : ∀ occ a, s.slots.lookup (id, occ) = some a →
    ∃ b, s'.slots.lookup (id, occ) = some b ∧ Evolves a b
  absent : ∀ occ, s.slots.lookup (id, occ) = none → s'.slots.lookup (id, occ) = none

variable {occ : Occurrence}

theorem SlotsKept.back (h : SlotsKept s s' id) (hb : s'.slots.lookup (id, occ) = some b) :
    ∃ a, s.slots.lookup (id, occ) = some a ∧ Evolves a b := by
  cases ha : s.slots.lookup (id, occ) with
  | none =>
    rw [h.absent occ ha] at hb
    cases hb
  | some a =>
    obtain ⟨b', hb', hab⟩ := h.evolve occ a ha
    obtain rfl : b' = b := Option.some.inj (hb'.symm.trans hb)
    exact ⟨a, rfl, hab⟩

theorem SlotsKept.ne_none_iff (h : SlotsKept s s' id) (occ : Occurrence) :
    s'.slots.lookup (id, occ) ≠ none ↔ s.slots.lookup (id, occ) ≠ none := by
  constructor
  · intro h' hnone
    exact h' (h.absent occ hnone)
  · intro hsome
    obtain ⟨a, ha⟩ := Option.ne_none_iff_exists'.mp hsome
    obtain ⟨b, hb, -⟩ := h.evolve occ a ha
    rw [hb]
    simp

variable {r r' : ScheduleRecord}

theorem Calendar.congr (hc : Calendar s id r) (hdef : r'.definition = r.definition)
    (hseq : r'.nextSequence = r.nextSequence) (hnext : r'.nextRunAt = r.nextRunAt) :
    Calendar s id r' := by
  constructor
  all_goals simp only [hdef, hseq, hnext]
  exacts [hc.occurrences, hc.increasing, hc.upcoming, hc.every, hc.after, hc.last_open]

theorem Calendar.kept (hc : Calendar s id r)
    (hcreated : s'.createdAt.lookup id = s.createdAt.lookup id) (hslots : SlotsKept s s' id)
    (htimes : TimesKept s s') : Calendar s' id r where
  occurrences occ := (hslots.ne_none_iff occ).trans (hc.occurrences occ)
  increasing hkind m n a b hmn ha hb := by
    obtain ⟨a₀, ha₀, hea⟩ := hslots.back ha
    obtain ⟨b₀, hb₀, heb⟩ := hslots.back hb
    rw [hea.nominalAt, heb.nominalAt]
    exact hc.increasing hkind m n a₀ b₀ hmn ha₀ hb₀
  upcoming hkind n a ha := by
    obtain ⟨a₀, ha₀, hea⟩ := hslots.back ha
    rw [hea.nominalAt]
    exact hc.upcoming hkind n a₀ ha₀
  every hkind := by
    obtain ⟨start, interval, hstart, hint, hnominal, hdue⟩ := hc.every hkind
    refine ⟨start, interval, hcreated.trans hstart, hint, fun n a ha => ?_, hdue⟩
    obtain ⟨a₀, ha₀, hea⟩ := hslots.back ha
    rw [hea.nominalAt]
    exact hnominal n a₀ ha₀
  after hkind := by
    obtain ⟨interval, hint, hpairs, hlast⟩ := hc.after hkind
    refine ⟨interval, hint, fun n a b ha hb => ?_, fun hne n a hn ha => ?_⟩
    · obtain ⟨a₀, ha₀, hea⟩ := hslots.back ha
      obtain ⟨b₀, hb₀, heb⟩ := hslots.back hb
      rw [heb.nominalAt]
      exact (hpairs n a₀ b₀ ha₀ hb₀).kept hea htimes
    · obtain ⟨a₀, ha₀, hea⟩ := hslots.back ha
      exact (hlast hne n a₀ hn ha₀).kept hea htimes
  last_open hkind n a ha hopen := by
    obtain ⟨a₀, ha₀, hea⟩ := hslots.back ha
    exact hc.last_open hkind n a₀ ha₀ (hea.open_of_open hopen)

theorem Calendar.setDue (due : ℚ) (hc : Calendar s id r) (hkind : r.definition.kind = .after)
    (hint : r.definition.intervalSeconds = some interval)
    (hclosed : ∀ n a, s.slots.lookup (id, .slot n) = some a → a.state.terminal = true)
    (hfollows : ∀ n a, n + 1 = r.nextSequence → s.slots.lookup (id, .slot n) = some a →
      FollowsOn s a interval due) : Calendar s id { r with nextRunAt := due } where
  occurrences := hc.occurrences
  increasing hne := absurd hkind hne
  upcoming hne := absurd hkind hne
  every hevery := by cases hkind.symm.trans hevery
  after _ := by
    obtain ⟨interval', hint', hpairs, -⟩ := hc.after hkind
    obtain rfl : interval' = interval := Option.some.inj (hint'.symm.trans hint)
    exact ⟨interval', hint, hpairs, fun _ => hfollows⟩
  last_open _ n a ha hopen := by
    rw [hclosed n a ha] at hopen
    cases hopen

theorem Calendar.admitNext (s' : ScheduleStore A) (due : ℚ) (b : SlotRow) (hc : Calendar s id r)
    (hfirst : 1 ≤ r.nextSequence) (hpos : 0 < r.nextRunAt)
    (hnew : s'.slots.lookup (id, .slot r.nextSequence) = some b)
    (hnominal : b.nominalAt = r.nextRunAt) (hsame : ∀ occ, occ ≠ .slot r.nextSequence →
      s'.slots.lookup (id, occ) = s.slots.lookup (id, occ))
    (hcreated : s'.createdAt.lookup id = s.createdAt.lookup id) (htimes : TimesKept s s')
    (hlater : r.definition.kind ≠ .after → r.nextRunAt < due)
    (hevery : r.definition.kind = .every → ∀ interval,
      r.definition.intervalSeconds = some interval → due = r.nextRunAt + interval)
    (hafter : r.definition.kind = .after → due = 0) : Calendar s' id (advancedRecord r due) := by
  -- a stored slot is the new one, or an old one with a smaller number
  have hcases : ∀ n a, s'.slots.lookup (id, .slot n) = some a →
      (n = r.nextSequence ∧ a = b) ∨
        (n < r.nextSequence ∧ s.slots.lookup (id, .slot n) = some a) := by
    intro n a ha
    by_cases hn : n = r.nextSequence
    · subst hn
      rw [hnew] at ha
      exact Or.inl ⟨rfl, (Option.some.inj ha).symm⟩
    · have hold : s.slots.lookup (id, .slot n) = some a := by
        rw [← hsame (.slot n) (by simpa using hn), ha]
      have hne : s.slots.lookup (id, .slot n) ≠ none := by simp [hold]
      obtain ⟨m, hm, -, hlt⟩ := (hc.occurrences (.slot n)).mp hne
      cases hm
      exact Or.inr ⟨hlt, hold⟩
  refine ⟨?_, ?_, ?_, ?_, ?_, ?_⟩
  · intro occ
    by_cases hocc : occ = .slot r.nextSequence
    · subst hocc
      simp only [hnew, ne_eq, reduceCtorEq, not_false_eq_true, true_iff]
      exact ⟨r.nextSequence, rfl, hfirst, Nat.lt_succ_self _⟩
    · rw [hsame occ hocc, hc.occurrences occ]
      constructor
      · rintro ⟨n, rfl, h1, hn⟩
        exact ⟨n, rfl, h1, Nat.lt_succ_of_lt hn⟩
      · rintro ⟨n, rfl, h1, hn⟩
        refine ⟨n, rfl, h1, lt_of_le_of_ne (Nat.lt_succ_iff.mp hn) ?_⟩
        rintro rfl
        exact hocc rfl
  · intro hkind m n a b' hmn ha hb'
    rcases hcases n b' hb' with ⟨rfl, rfl⟩ | ⟨hn, hbold⟩
    · rcases hcases m a ha with ⟨rfl, -⟩ | ⟨-, haold⟩
      · omega
      · rw [hnominal]
        exact hc.upcoming hkind m a haold
    · rcases hcases m a ha with ⟨rfl, -⟩ | ⟨-, haold⟩
      · omega
      · exact hc.increasing hkind m n a b' hmn haold hbold
  · intro hkind n a ha
    rcases hcases n a ha with ⟨-, rfl⟩ | ⟨-, haold⟩
    · rw [hnominal]
      exact hlater hkind
    · exact (hc.upcoming hkind n a haold).trans (hlater hkind)
  · intro hkind
    obtain ⟨start, interval, hstart, hint, hold, hdue⟩ := hc.every hkind
    refine ⟨start, interval, hcreated.trans hstart, hint, ?_, ?_⟩
    · intro n a ha
      rcases hcases n a ha with ⟨rfl, rfl⟩ | ⟨-, haold⟩
      · rw [hnominal, hdue]
      · exact hold n a haold
    · rw [advancedRecord, hevery hkind interval hint, hdue]
      push_cast
      ring
  · intro hkind
    obtain ⟨interval, hint, hpairs, hlast⟩ := hc.after hkind
    refine ⟨interval, hint, ?_, fun hne => absurd (hafter hkind) hne⟩
    intro n a b' ha hb'
    rcases hcases n a ha with ⟨rfl, -⟩ | ⟨hn, haold⟩
    · rcases hcases _ b' hb' with ⟨heq, -⟩ | ⟨hlt, -⟩
      · omega
      · omega
    · rcases hcases _ b' hb' with ⟨heq, rfl⟩ | ⟨-, hbold⟩
      · rw [hnominal]
        exact (hlast hpos.ne' n a heq haold).kept (Evolves.refl a) htimes
      · exact (hpairs n a b' haold hbold).kept (Evolves.refl a) htimes
  · intro hkind n a ha hopen
    rcases hcases n a ha with ⟨rfl, -⟩ | ⟨-, haold⟩
    · exact ⟨rfl, hafter hkind⟩
    · -- an old open slot would mean that nothing was due
      exact absurd (hc.last_open hkind n a haold hopen).2 hpos.ne'

/-! ## What keeps the books of a schedule -/

/-- A row whose definition, sequence number and due instant stay. -/
structure RowKept (row row' : ScheduleRow) : Prop where
  definition : row'.payload.definition = row.payload.definition
  nextSequence : row'.payload.nextSequence = row.payload.nextSequence
  nextRunAt : row'.payload.nextRunAt = row.payload.nextRunAt
  status_column : row'.payload.status = row'.status
  due_column : row'.payload.nextRunAt = row'.nextRunAt

theorem RowBooks.kept {row : ScheduleRow} (h : RowBooks sv s id row)
    (hdefs : s'.definitions.lookup id = s.definitions.lookup id)
    (hcreated : s'.createdAt.lookup id = s.createdAt.lookup id)
    (hslots : row.payload.definition.kind ≠ .on → SlotsKept s s' id) (htimes : TimesKept s s') :
    RowBooks sv s' id row :=
  { h with
    definition := hdefs.trans h.definition
    calendar := fun hkind => (h.calendar hkind).kept hcreated (hslots hkind) htimes }

theorem SlotsKept.of_eq (h : ∀ occ, s'.slots.lookup (id, occ) = s.slots.lookup (id, occ)) :
    SlotsKept s s' id :=
  ⟨fun occ a ha => ⟨a, (h occ).trans ha, Evolves.refl a⟩, fun occ ha => (h occ).trans ha⟩

theorem Evidence.books {row : ScheduleRow} (hev : Evidence sv s id row record) (hb : Books sv s) :
    RowBooks sv s id row ∧ record.definition.scheduleId = id := by
  have hrow : RowBooks sv s id row := hb.rows id row hev.stored
  rw [hev.record_eq]
  exact ⟨hrow, hrow.scheduleId⟩

theorem RowBooks.saved {row row' : ScheduleRow} (h : RowBooks sv s id row)
    (hrow : RowKept row row') : RowBooks sv s id row' := by
  refine ⟨?_, hrow.status_column, hrow.due_column, ?_, ?_, ?_, hrow.nextSequence ▸ h.first, ?_⟩
  all_goals rw [hrow.definition]
  exacts [h.scheduleId, h.valid, h.definition, h.profile,
    fun hon => (h.calendar hon).congr hrow.definition hrow.nextSequence hrow.nextRunAt]

/-- A change that inserts no slot and binds none keeps the books, if it keeps the rows. -/
theorem Books.of_rows (hb : Books sv s)
    (hrows : ∀ id row, s'.schedules.lookup id = some row → RowBooks sv s' id row)
    (hpersist : ∀ id, s.schedules.lookup id ≠ none → s'.schedules.lookup id ≠ none)
    (hevolve : SlotsEvolve s s') (hbindings : s'.bindings = s.bindings)
    (hslots : ∀ key b, s'.slots.lookup key = some b →
      ∃ a, s.slots.lookup key = some a ∧ b.invocationId = a.invocationId) : Books sv s' where
  rows := hrows
  owned key b hb' := by
    obtain ⟨a, ha, -⟩ := hslots key b hb'
    exact hpersist key.1 (hb.owned key a ha)
  triggers id c b hb' := by
    obtain ⟨a, ha, hinv⟩ := hslots _ b hb'
    rw [hinv]
    exact hb.triggers id c a ha
  unique k k' a b i ha hb' hai hbi := by
    obtain ⟨a₀, ha₀, hinva⟩ := hslots k a ha
    obtain ⟨b₀, hb₀, hinvb⟩ := hslots k' b hb'
    rw [hinva] at hai
    rw [hinvb] at hbi
    exact hb.unique k k' a₀ b₀ i ha₀ hb₀ hai hbi
  bindings key saved hsaved := by
    rw [hbindings] at hsaved
    obtain ⟨a, ha, hinv⟩ := hb.bindings key saved hsaved
    obtain ⟨b, hb', hab⟩ := hevolve key a ha
    exact ⟨b, hb', hab.invocation _ hinv⟩

theorem SlotsEvolve.kept (h : SlotsEvolve s s')
    (hnew : ∀ key, s.slots.lookup key = none → s'.slots.lookup key = none) (id : String) :
    SlotsKept s s' id :=
  ⟨fun occ a ha => h (id, occ) a ha, fun occ hocc => hnew (id, occ) hocc⟩

section

variable (hb : Books sv s)

include hb

theorem Books.of_map {g : String × Occurrence → SlotRow → SlotRow}
    (hmap : ∀ k, s'.slots.lookup k = (s.slots.lookup k).map (g k))
    (hevolves : ∀ k row, s.slots.lookup k = some row → Evolves row (g k row))
    (hinv : ∀ k row, s.slots.lookup k = some row → (g k row).invocationId = row.invocationId)
    (hsame : s' = { s with slots := s'.slots }) : Books sv s' := by
  have hevolve := SlotsEvolve.of_map hmap hevolves
  have hkept := hevolve.kept fun k h => by rw [hmap, h]; rfl
  rw [hsame] at hevolve hkept ⊢
  refine hb.of_rows (fun id row hrow => ?_) (fun _ h => h) hevolve rfl fun k b hk => ?_
  · exact (hb.rows id row hrow).kept rfl rfl (fun _ => hkept id) (fun _ _ h => h)
  · obtain ⟨a, ha, rfl⟩ := Option.map_eq_some_iff.mp ((hmap k).symm.trans hk)
    exact ⟨a, ha, hinv k a ha⟩

theorem Books.setSlot (hevolves : ∀ row, s.slots.lookup key = some row → Evolves row (f row))
    (hinv : ∀ row, s.slots.lookup key = some row → (f row).invocationId = row.invocationId) :
    Books sv (setSlot key f s) := by
  refine hb.of_map (fun _ => lookup_setSlot) (fun k row hrow => ?_) (fun k row hrow => ?_) rfl
  all_goals split
  · next hk => exact hevolves row (hk ▸ hrow)
  · exact Evolves.refl row
  · next hk => exact hinv row (hk ▸ hrow)
  · rfl

theorem Books.putRecord {row : ScheduleRow} (hrow : s.schedules.lookup id = some row)
    (hsaved : RowBooks sv s id (savedRow record row)) : Books sv (putRecord record s) := by
  obtain rfl : record.definition.scheduleId = id := hsaved.scheduleId
  have hkept : ∀ {id row}, RowBooks sv s id row →
      RowBooks sv (Schedules.putRecord record s) id row :=
    fun h => h.kept rfl rfl (fun _ => SlotsKept.of_eq fun _ => rfl) (fun _ _ h => h)
  refine hb.of_rows (putRecord_rows (fun old hold => ?_) fun id row _ h => hkept (hb.rows id row h))
    (fun _ h => putRecord_persists h) (SlotsEvolve.refl_of_eq rfl) rfl fun k b hk => ⟨b, hk, rfl⟩
  obtain rfl : row = old := Option.some.inj (hrow.symm.trans hold)
  exact hkept hsaved

theorem Books.putUnmoved {row : ScheduleRow} (hrow : s.schedules.lookup id = some row)
    (hkept : RowKept row (savedRow record row)) : Books sv (Schedules.putRecord record s) :=
  hb.putRecord hrow ((hb.rows id row hrow).saved hkept)

/-- The books are about the tables of schedules, and about recorded terminal times. -/
theorem Books.of_same (hsched : s'.schedules = s.schedules) (hdefs : s'.definitions = s.definitions)
    (hslots : s'.slots = s.slots) (hcreated : s'.createdAt = s.createdAt)
    (hbindings : s'.bindings = s.bindings) (htimes : TimesKept s s') : Books sv s' := by
  refine hb.of_rows (fun id row hrow => ?_) (by rw [hsched]; exact fun _ h => h)
    (SlotsEvolve.refl_of_eq hslots) hbindings (fun _ b h => ⟨b, hslots ▸ h, rfl⟩)
  rw [hsched] at hrow
  refine (hb.rows id row hrow).kept (by rw [hdefs]) (by rw [hcreated]) (fun _ => ?_) htimes
  exact SlotsKept.of_eq fun _ => by rw [hslots]

theorem Books.cancelSlots (id : String) : Books sv (cancelSlots id s) := by
  refine hb.of_map (fun _ => lookup_cancelSlots) (fun k row _ => ?_) (fun k row _ => ?_) rfl
  all_goals split
  · exact cancelledSlot_evolves row
  · exact Evolves.refl row
  · exact cancelledSlot_invocationId row
  · rfl

theorem Books.of_bound {i : String}
    (hrows : ∀ id row, s'.schedules.lookup id = some row → RowBooks sv s' id row)
    (hpersist : ∀ id, s.schedules.lookup id ≠ none → s'.schedules.lookup id ≠ none)
    (howned : s.schedules.lookup key.1 ≠ none) (hkey : s'.slots.lookup key = some b)
    (hbound : b.invocationId = some i)
    (hother : ∀ k, k ≠ key → s'.slots.lookup k = s.slots.lookup k) {saved : ScheduleBinding}
    (hbindings : s'.bindings = s.bindings.put key saved) (hsaved : saved.invocationId = i)
    (hfree : ∀ k a, s.slots.lookup k = some a → a.invocationId = some i → k = key) :
    Books sv s' where
  rows := hrows
  owned k a ha := by
    by_cases hk : k = key
    · rw [hk]
      exact hpersist key.1 howned
    · rw [hother k hk] at ha
      exact hpersist k.1 (hb.owned k a ha)
  triggers id c a ha := by
    by_cases hk : (id, Occurrence.trigger c) = key
    · rw [hk, hkey, Option.some.injEq] at ha
      rw [← ha, hbound]
      simp
    · rw [hother _ hk] at ha
      exact hb.triggers id c a ha
  unique k k' a a' j ha ha' haj ha'j := by
    -- a slot with the new invocation is the bound one, any other slot is an old one
    have hslot : ∀ {k a}, s'.slots.lookup k = some a → a.invocationId = some j →
        if j = i then k = key else s.slots.lookup k = some a := by
      intro k a ha haj
      by_cases hk : k = key
      · rw [hk, hkey, Option.some.injEq] at ha
        rw [← ha, hbound, Option.some.injEq] at haj
        rw [if_pos haj.symm]
        exact hk
      · rw [hother k hk] at ha
        split
        · next hj => exact hfree k a ha (hj ▸ haj)
        · exact ha
    have hk := hslot ha haj
    have hk' := hslot ha' ha'j
    by_cases hj : j = i
    · rw [if_pos hj] at hk hk'
      rw [hk, hk']
    · rw [if_neg hj] at hk hk'
      exact hb.unique k k' a a' j hk hk' haj ha'j
  bindings k saved' hk' := by
    rw [hbindings, Table.lookup_put] at hk'
    split at hk'
    · next hk =>
        obtain rfl := Option.some.inj hk'
        exact ⟨b, by rw [hk, hkey], by rw [hbound, hsaved]⟩
    · next hk =>
        rw [hother k hk]
        exact hb.bindings k saved' hk'

end

/-! ## Every change keeps the books -/

theorem definitionValid_of_payloadValid (h : payloadValid record = true) :
    definitionValid record.definition = true := by
  simp only [payloadValid, definitionFields, stateFields, List.cons_append, List.nil_append,
    Json.valid, Json.validAt, Json.validFieldsAt, Bool.and_eq_true] at h
  simp only [definitionValid, definitionFields, Json.valid, Json.validAt, Json.validFieldsAt,
    Bool.and_eq_true]
  exact ⟨h.1, h.2.1, h.2.2.1, trivial⟩

variable {profile : ScheduleProfile}

theorem newCalendar {now : ℚ} (hparsed : profileOf sv record.definition = .ok profile)
    (hkind : record.definition.kind = profile.kind)
    (hinterval : record.definition.intervalSeconds = profile.intervalSeconds)
    (hdue : firstDue sv profile now record.definition.timezone = .ok record.nextRunAt)
    (hfirst : record.nextSequence = 1) (hon : record.definition.kind ≠ .on)
    (hempty : ∀ occ, s.slots.lookup (record.definition.scheduleId, occ) = none)
    (hcreated : s.createdAt.lookup record.definition.scheduleId = some now) :
    Calendar s record.definition.scheduleId (payloadOf record) := by
  have hnext : ScheduleProfiles.nextDue sv.calendar profile now record.definition.timezone =
      .ok record.nextRunAt := by
    rw [hkind] at hon
    unfold firstDue at hdue
    rwa [if_neg hon] at hdue
  have hinterval' : profile.kind = .every ∨ profile.kind = .after →
      ∃ interval, record.definition.intervalSeconds = some interval ∧
        record.nextRunAt = now + interval := by
    intro hk
    obtain ⟨interval, hint, -⟩ := ScheduleProfiles.parseSchedule_interval sv.calendar hparsed hk
    refine ⟨interval, hinterval.trans hint, ?_⟩
    have hstep := ScheduleProfiles.nextDue_interval sv.calendar hk hnext
    rwa [hint] at hstep
  refine ⟨?_, ?_, ?_, ?_, ?_, ?_⟩
  · intro occ
    simp only [hempty, ne_eq, not_true_eq_false, false_iff]
    rintro ⟨n, -, h1, hn⟩
    have hn1 : n < 1 := hfirst ▸ hn
    omega
  · intro _ m n a b _ ha
    rw [hempty] at ha
    cases ha
  · intro _ n a ha
    rw [hempty] at ha
    cases ha
  · intro hk
    obtain ⟨interval, hint, hstep⟩ := hinterval' (Or.inl (hkind.symm.trans hk))
    refine ⟨now, interval, hcreated, hint, ?_, ?_⟩
    · intro n a ha
      rw [hempty] at ha
      cases ha
    · show record.nextRunAt = now + (record.nextSequence : ℚ) * interval
      rw [hstep, hfirst]
      push_cast
      ring
  · intro hk
    obtain ⟨interval, hint, -⟩ := hinterval' (Or.inr (hkind.symm.trans hk))
    refine ⟨interval, hint, ?_, ?_⟩
    · intro n a b ha
      rw [hempty] at ha
      cases ha
    · intro _ n a _ ha
      rw [hempty] at ha
      cases ha
  · intro _ n a ha
    rw [hempty] at ha
    cases ha

theorem Books.created (hb : Books sv s) {operationKey : Option String} {now : ℚ}
    (hparsed : profileOf sv record.definition = .ok profile)
    (hkind : record.definition.kind = profile.kind)
    (hinterval : record.definition.intervalSeconds = profile.intervalSeconds)
    (hdue : firstDue sv profile now record.definition.timezone = .ok record.nextRunAt)
    (hfirst : record.nextSequence = 1) (hvalid : payloadValid record = true)
    (hfresh : s.schedules.lookup record.definition.scheduleId = none) :
    Books sv (putSchedule record operationKey now s) := by
  -- a schedule without a row has no slots
  have hempty : ∀ occ, s.slots.lookup (record.definition.scheduleId, occ) = none := by
    intro occ
    cases ha : s.slots.lookup (record.definition.scheduleId, occ) with
    | none => rfl
    | some a => exact absurd hfresh (hb.owned _ a ha)
  refine hb.of_rows (fun id row hrow => ?_) (fun id h => ?_) (SlotsEvolve.refl_of_eq rfl) rfl
    (fun _ b h => ⟨b, h, rfl⟩)
  · by_cases hid : id = record.definition.scheduleId
    · subst hid
      obtain rfl := Option.some.inj (Table.lookup_put_self.symm.trans hrow)
      refine ⟨rfl, rfl, rfl, definitionValid_of_payloadValid hvalid, Table.lookup_put_self,
        ⟨profile, hparsed, hkind.symm, hinterval.symm⟩, hfirst.ge, fun hon => ?_⟩
      exact newCalendar hparsed hkind hinterval hdue hfirst hon hempty Table.lookup_put_self
    · have hold : s.schedules.lookup id = some row := (Table.lookup_put_ne hid).symm.trans hrow
      exact (hb.rows id row hold).kept (Table.lookup_put_ne hid) (Table.lookup_put_ne hid)
        (fun _ => SlotsKept.of_eq fun _ => rfl) (fun _ _ h => h)
  · by_cases hid : id = record.definition.scheduleId
    · rw [hid] at h
      exact absurd hfresh h
    · exact fun hnone => h ((Table.lookup_put_ne hid).symm.trans hnone)

theorem lookup_admitStore {request : ClaimRequest} {due : ℚ} (key : String × Occurrence) :
    (admitStore request record due s).slots.lookup key =
      if key = nextKey record then
        some (claimedSlot request (newSlot record.nextRunAt record.definition.inputData))
      else s.slots.lookup key := by
  split
  · next hkey =>
      subst hkey
      exact lookup_setSlot_self Table.lookup_put_self
  · next hkey =>
      show (setSlot _ _ _).slots.lookup key = _
      rw [lookup_setSlot_ne hkey]
      exact Table.lookup_put_ne hkey

theorem admitStore_evolve {request : ClaimRequest} {due : ℚ}
    (hfresh : s.slots.lookup (nextKey record) = none) :
    SlotsEvolve s (admitStore request record due s) := by
  intro key a ha
  have hkey : key ≠ nextKey record := by
    rintro rfl
    rw [hfresh] at ha
    cases ha
  exact ⟨a, by rw [lookup_admitStore, if_neg hkey, ha], Evolves.refl a⟩

theorem followingDue_eq_ok {due : ℚ} (h : followingDue sv record profile = .ok due)
    (hon : record.definition.kind ≠ .on) :
    (record.definition.kind ≠ .after → record.nextRunAt < due ∧
      ScheduleProfiles.nextDue sv.calendar profile record.nextRunAt record.definition.timezone =
        .ok due) ∧
      (record.definition.kind = .after → due = 0) := by
  unfold followingDue at h
  split at h
  · next hcalendar =>
      refine ⟨fun _ => ⟨ScheduleProfiles.nextDue_lt sv.calendar h, h⟩, fun hafter => ?_⟩
      rw [hafter] at hcalendar
      simp at hcalendar
  · next hcalendar =>
      refine ⟨fun hafter => ?_, fun _ => (Except.ok.inj h).symm⟩
      exfalso
      cases hkind : record.definition.kind <;> simp_all

variable {schedule : ScheduleRow}

theorem admitted_row (hb : Books sv s) {request : ClaimRequest} {scheduleId : String} {due : ℚ}
    (h : Admits sv s request scheduleId schedule record profile due) :
    RowBooks sv (admitStore request record due s) scheduleId
      (savedRow (advancedRecord record due) schedule) := by
  have hrow := (h.evidence.books hb).1
  obtain rfl := h.evidence.record_eq
  obtain ⟨p, hp, hpkind, hpinterval⟩ := hrow.profile
  obtain rfl : p = profile := Except.ok.inj (hp.symm.trans h.parsed)
  have hpos : 0 < schedule.payload.nextRunAt := by
    rw [hrow.nextRunAt]
    exact h.scheduled
  refine ⟨hrow.scheduleId, rfl, rfl, definitionValid_of_payloadValid h.valid, hrow.definition,
    hrow.profile, Nat.le_add_left 1 _, fun hon => ?_⟩
  obtain ⟨hlater, hzero⟩ := followingDue_eq_ok h.next hon
  have hkey : ∀ occ, (scheduleId, occ) =
      nextKey { schedule.payload with leaseUntil := schedule.leaseUntil } ↔
        occ = .slot schedule.payload.nextSequence := by
    simp [nextKey, hrow.scheduleId]
  have hcal := (hrow.calendar hon).admitNext
    (admitStore request { schedule.payload with leaseUntil := schedule.leaseUntil } due s) due
    (claimedSlot request (newSlot schedule.payload.nextRunAt schedule.payload.definition.inputData))
    hrow.first hpos ?_ rfl ?_ rfl (fun _ _ ht => ht) (fun hafter => (hlater hafter).1) ?_ hzero
  · exact hcal.congr rfl rfl rfl
  · rw [lookup_admitStore, if_pos ((hkey _).mpr rfl)]
  · intro occ hocc
    rw [lookup_admitStore, if_neg (mt (hkey occ).mp hocc)]
  · intro hevery interval hint
    have hne : schedule.payload.definition.kind ≠ .after := by
      rw [hevery]
      simp
    have hstep := ScheduleProfiles.nextDue_interval sv.calendar (Or.inl (hpkind.trans hevery))
      (hlater hne).2
    rw [hpinterval, hint] at hstep
    exact hstep

theorem Books.admitted (hb : Books sv s) {request : ClaimRequest} {scheduleId : String} {due : ℚ}
    (h : Admits sv s request scheduleId schedule record profile due) :
    Books sv (admitStore request record due s) := by
  obtain ⟨-, rfl⟩ := h.evidence.books hb
  -- the new slot has no invocation, the others are as before
  have hback : ∀ key b, (admitStore request record due s).slots.lookup key = some b →
      s.slots.lookup key = some b ∨ (key = nextKey record ∧ b.invocationId = none) := by
    intro key b hkb
    rw [lookup_admitStore] at hkb
    split at hkb
    · next hk => exact Or.inr ⟨hk, by rw [← Option.some.inj hkb]; rfl⟩
    · exact Or.inl hkb
  refine ⟨putRecord_rows ?_ ?_, ?_, ?_, ?_, ?_⟩
  · intro old hold
    obtain rfl : old = schedule := Option.some.inj (hold.symm.trans h.evidence.stored)
    exact admitted_row hb h
  · intro id row hne hrow
    refine (hb.rows id row hrow).kept rfl rfl (fun _ => SlotsKept.of_eq fun occ => ?_)
      (fun _ _ ht => ht)
    rw [lookup_admitStore, if_neg]
    exact fun heq => hne (congrArg Prod.fst heq)
  · intro key b hkb
    refine putRecord_persists ?_
    rcases hback key b hkb with hold | ⟨rfl, -⟩
    · exact hb.owned key b hold
    · exact Option.ne_none_iff_exists'.mpr ⟨schedule, h.evidence.stored⟩
  · intro id c b hkb
    rcases hback _ b hkb with hold | ⟨hk, -⟩
    · exact hb.triggers id c b hold
    · cases hk
  · intro k k' a b i ha hb' hai hbi
    rcases hback k a ha with hka | ⟨-, hnone⟩
    · rcases hback k' b hb' with hkb | ⟨-, hnone⟩
      · exact hb.unique k k' a b i hka hkb hai hbi
      · rw [hnone] at hbi
        cases hbi
    · rw [hnone] at hai
      cases hai
  · intro key saved hsaved
    obtain ⟨a, ha, hinv⟩ := hb.bindings key saved hsaved
    obtain ⟨b, hb', hab⟩ := admitStore_evolve h.fresh key a ha
    exact ⟨b, hb', hab.invocation _ hinv⟩

theorem bound_rows (hb : Books sv s) {i : String} (hev : Evidence sv s id schedule record)
    (hsched : s'.schedules =
      (putRecord { record with lastInvocationId := some i } s).schedules)
    (hdefs : s'.definitions = s.definitions) (hcreated : s'.createdAt = s.createdAt)
    (htimes : TimesKept s s')
    (hslots : ∀ id row, s.schedules.lookup id = some row → row.payload.definition.kind ≠ .on →
      SlotsKept s s' id) : ∀ id row, s'.schedules.lookup id = some row → RowBooks sv s' id row := by
  obtain ⟨hrow, rfl⟩ := hev.books hb
  rw [hsched]
  have hkept : ∀ {id row}, s.schedules.lookup id = some row → RowBooks sv s' id row :=
    fun {id row} h => (hb.rows id row h).kept (by rw [hdefs]) (by rw [hcreated]) (hslots id row h)
      htimes
  apply putRecord_rows
  · intro old hold
    obtain rfl : old = schedule := Option.some.inj (hold.symm.trans hev.stored)
    obtain rfl := hev.record_eq
    exact (hkept hold).saved ⟨rfl, rfl, rfl, rfl, rfl⟩
  · exact fun id row _ hrow => hkept hrow

variable {encoded : Snapshot}

theorem BindsNew.timesKept {engine : String} {fresh : FreshIds} {r : RuntimeStore}
    (h : BindsNew s key record row engine fresh encoded r) (hr : s'.runtime = r) :
    TimesKept s s' := by
  intro i v hv
  rw [hr, h.creates.terminalTimes]
  exact hv

theorem Books.bound (hb : Books sv s) {engine : String} {fresh : FreshIds} {r : RuntimeStore}
    {a : A} (hev : Evidence sv s key.1 schedule record) (hrow : s.slots.lookup key = some row)
    (hopen : row.state.terminal = false) (hunbound : row.invocationId = none)
    (hbinds : BindsNew s key record row engine fresh encoded r) :
    Books sv (bindStore key record encoded.record.identity r a s) := by
  have hlookup : ∀ k, (bindStore key record encoded.record.identity r a s).slots.lookup k =
      (s.slots.lookup k).map fun row =>
        if k = key then boundSlot encoded.invocationId row else row :=
    fun _ => lookup_setSlot
  have hkept : ∀ id, SlotsKept s (bindStore key record encoded.record.identity r a s) id := by
    refine SlotsEvolve.kept (SlotsEvolve.of_map hlookup fun k c hc => ?_)
      fun k hnone => by rw [hlookup, hnone]; rfl
    split
    · next hk =>
        rw [hk, hrow, Option.some.injEq] at hc
        rw [← hc]
        exact boundSlot_evolves _ hopen hunbound
    · exact Evolves.refl c
  refine hb.of_bound (bound_rows hb hev rfl rfl rfl (hbinds.timesKept rfl)
    fun id _ _ _ => hkept id) (fun _ h => putRecord_persists h) ?_ (lookup_setSlot_self hrow) rfl
    (fun k hk => Table.lookup_updateWhere_ne hk) rfl rfl hbinds.unique
  rw [hev.stored]
  simp

theorem Books.triggered (hb : Books sv s) {request : TriggerRequest} {r : RuntimeStore} {a : A}
    (hev : Evidence sv s request.scheduleId schedule record) (hkind : record.definition.kind = .on)
    (hbinds : BindsNew (withTriggerSlot request s) request.key record
      (newSlot request.now request.input) request.engine request.fresh encoded r) :
    Books sv (triggerStore request record encoded.record.identity r a
      (withTriggerSlot request s)) := by
  -- the new slot, inserted, bound and left pending
  have hself : (triggerStore request record encoded.record.identity r a
      (withTriggerSlot request s)).slots.lookup request.key =
        some { boundSlot encoded.invocationId (newSlot request.now request.input) with
          state := .pending } :=
    lookup_setSlot_self (lookup_setSlot_self Table.lookup_put_self)
  have hother : ∀ k, k ≠ request.key →
      (triggerStore request record encoded.record.identity r a
        (withTriggerSlot request s)).slots.lookup k = s.slots.lookup k := by
    intro k hk
    exact (lookup_setSlot_ne hk).trans
      ((Table.lookup_updateWhere_ne hk).trans (Table.lookup_put_ne hk))
  refine hb.of_bound (bound_rows hb hev rfl rfl rfl (fun i v hv => ?_) ?_)
    (fun _ h => putRecord_persists h) ?_ hself rfl hother rfl rfl ?_
  · have htimes : r.terminalTimes = s.runtime.terminalTimes := hbinds.creates.terminalTimes
    show r.terminalTimes.lookup i = some v
    rw [htimes]
    exact hv
  · -- a schedule with a calendar is not the one of the trigger
    intro id row hrow hon
    refine SlotsKept.of_eq fun occ => hother _ ?_
    rintro ⟨⟩
    obtain rfl : row = schedule := Option.some.inj (hrow.symm.trans hev.stored)
    rw [hev.record_eq] at hkind
    exact hon hkind
  · show s.schedules.lookup request.scheduleId ≠ none
    rw [hev.stored]
    simp
  · intro k c hc hi
    by_cases hk : k = request.key
    · exact hk
    · refine hbinds.unique k c ?_ hi
      exact (Table.lookup_put_ne hk).trans hc

theorem BoundTo.invocationId {handle : ExecutionHandle} (h : BoundTo s key row handle)
    (hb : Books sv s) (hrow : s.slots.lookup key = some row) :
    row.invocationId = some handle.record.identity.invocationId := by
  obtain ⟨a, ha, hinv⟩ := hb.bindings key _ h.saved
  obtain rfl : a = row := Option.some.inj (ha.symm.trans hrow)
  exact hinv

theorem Calendar.numbered (h : Calendar s id r) (ha : s.slots.lookup (id, occ) = some a) :
    ∃ n, occ = .slot n := by
  have hne : s.slots.lookup (id, occ) ≠ none := by simp [ha]
  obtain ⟨n, hn, -⟩ := (h.occurrences occ).mp hne
  exact ⟨n, hn⟩

/-- After the only open occurrence of an `after` schedule is finished, none is open. -/
theorem Calendar.closed_after_finish {n : ℕ} (h : Calendar s id r)
    (hkind : r.definition.kind = .after) (hrow : s.slots.lookup (id, .slot n) = some row)
    (hopen : row.state.terminal = false) (hf : (f row).state.terminal = true) (m : ℕ) (a : SlotRow)
    (ha : (setSlot (id, .slot n) f s).slots.lookup (id, .slot m) = some a) :
    a.state.terminal = true := by
  by_cases hm : m = n
  · subst hm
    rw [lookup_setSlot_self hrow, Option.some.injEq] at ha
    rw [← ha]
    exact hf
  · have hne : (id, Occurrence.slot m) ≠ (id, Occurrence.slot n) := by simpa using hm
    rw [lookup_setSlot_ne hne] at ha
    by_contra hterm
    have hopen' : a.state.terminal = false := by simpa using hterm
    have hn := (h.last_open hkind n row hrow hopen).1
    have hm' := (h.last_open hkind m a ha hopen').1
    omega

def finishedSlot (status : FinishStatus) (row : SlotRow) : SlotRow :=
  { row with state := status.slot, leaseUntil := none }

theorem Books.finished (hb : Books sv s) {claim : ScheduleClaim} {now : ℚ} {moved : ScheduleRecord}
    {handle : ExecutionHandle} {invocationId : String} {status : FinishStatus}
    (hev : Evidence sv s claim.scheduleId schedule record)
    (hrow : s.slots.lookup claim.key = some row) (hfence : Fences row claim now)
    (hbound : BoundTo s claim.key row handle)
    (hsame : handle.record.identity.invocationId = invocationId)
    (hmoves : Moves sv s record invocationId status moved) :
    Books sv (Schedules.putRecord moved
      (Schedules.setSlot claim.key (finishedSlot status) s)) := by
  have hbooks := (hev.books hb).1
  obtain rfl := hev.record_eq
  have hopen : row.state.terminal = false := hfence.2.2.2.2
  have hslot : Books sv (Schedules.setSlot claim.key (finishedSlot status) s) := by
    refine hb.setSlot (fun r hr => ?_) (fun _ _ => rfl)
    obtain rfl : r = row := Option.some.inj (hr.symm.trans hrow)
    exact open_evolves hopen status.slot none
  have hstored : (Schedules.setSlot claim.key (finishedSlot status) s).schedules.lookup
      claim.scheduleId = some schedule := hev.stored
  cases hmoves with
  | onward profile value due _ hkind _ hparsed htime hdue =>
    obtain ⟨p, hp, hpkind, hpinterval⟩ := hbooks.profile
    refine hslot.putRecord hstored ⟨hbooks.scheduleId, rfl, rfl, hbooks.valid, hbooks.definition,
      hbooks.profile, hbooks.first, fun hon => ?_⟩
    have hcal : Calendar s claim.scheduleId schedule.payload := hbooks.calendar hon
    obtain ⟨n, hn⟩ := hcal.numbered hrow
    have hkey : claim.key = (claim.scheduleId, Occurrence.slot n) :=
      congrArg (Prod.mk claim.scheduleId) hn
    rw [hkey] at hrow hslot hstored hbound ⊢
    have hcal' := (hslot.rows _ _ hstored).calendar hon
    -- the parsed profile is the one of the definition, so the due instant is one interval on
    obtain rfl : p = profile := Except.ok.inj (hp.symm.trans hparsed)
    obtain ⟨interval, hint, -, -⟩ := hcal.after hkind
    have hstep : due = value.completedAt + interval := by
      have hdue' := ScheduleProfiles.nextDue_interval sv.calendar
        (Or.inr (hpkind.trans hkind)) hdue
      rw [hpinterval, hint] at hdue'
      exact hdue'
    refine (hcal'.setDue due hkind hint ?_ ?_).congr rfl rfl rfl
    · intro m a ha
      exact hcal.closed_after_finish hkind hrow hopen status.slot_terminal m a ha
    · intro m a hm ha
      have hlast := (hcal.last_open hkind n row hrow hopen).1
      obtain rfl : m = n := by omega
      rw [lookup_setSlot_self hrow, Option.some.injEq] at ha
      refine ⟨invocationId, value, ?_, htime, hstep⟩
      rw [← ha, ← hsame]
      exact hbound.invocationId hb hrow
  | ended => exact hslot.putUnmoved hstored ⟨rfl, rfl, rfl, rfl, rfl⟩
  | stayed => exact hslot.putUnmoved hstored ⟨rfl, rfl, rfl, rfl, rfl⟩

/-- **Every change keeps the books.** -/
theorem Change.books (h : Change sv s s') (hb : Books sv s) : Books sv s' := by
  cases h with
  | untouched => exact hb.of_same rfl rfl rfl rfl rfl (fun _ _ h => h)
  | created record _ operationKey now _ hparsed hkind hint hdue _ hfirst hvalid hfresh =>
    have hcreated : Books sv (putSchedule record operationKey now s) :=
      hb.created hparsed hkind hint hdue hfirst hvalid hfresh
    exact hcreated.of_same rfl rfl rfl rfl rfl (fun _ _ h => h)
  | claimed request key _ _ row hrec =>
    have hsame : ∀ r, s.slots.lookup key = some r → r = row :=
      fun r hr => Option.some.inj (hr.symm.trans hrec.stored)
    refine hb.setSlot (fun r hr => ?_) (fun r hr => ?_)
    · rw [hsame r hr]
      exact claimedSlot_evolves request row
    · rw [hsame r hr]
      rfl
  | admitted _ _ _ _ _ _ hadm => exact hb.admitted hadm
  | bound _ _ _ _ _ _ _ _ _ _ hev _ hrow hfence hunbound hbinds =>
    exact hb.bound hev hrow hfence.2.2.2.2 hunbound hbinds
  | triggered _ _ _ _ _ _ hev _ hkind _ hbinds =>
    exact hb.triggered hev hkind hbinds
  | retriggered request _ _ row _ _ a _ _ _ hrow hunbound =>
    -- a trigger slot is bound in the transaction that inserts it
    exact absurd hunbound (hb.triggers request.scheduleId request.cycleKey row hrow)
  | renewed _ _ _ row hrow hfence =>
    refine hb.setSlot (fun r hr => ?_) (fun _ _ => rfl)
    obtain rfl : r = row := Option.some.inj (hr.symm.trans hrow)
    exact open_evolves hfence.2.2.2.2 r.state _
  | waited _ _ row hrow hfence =>
    refine hb.setSlot (fun r hr => ?_) (fun _ _ => rfl)
    obtain rfl : r = row := Option.some.inj (hr.symm.trans hrow)
    exact open_evolves hfence.2.2.2.2 .waiting none
  | finished _ _ _ _ _ _ _ _ _ hev hrow hfence hbound hsame _ hmoves =>
    exact hb.finished hev hrow hfence hbound hsame hmoves
  | cancelled id _ _ hev =>
    obtain rfl := hev.record_eq
    refine Books.cancelSlots ?_ id
    exact hb.putUnmoved hev.stored ⟨rfl, rfl, rfl, rfl, rfl⟩

theorem Step.books (h : Step sv s s') (hb : Books sv s) : Books sv s' := by
  rcases h.change_or_commit with hchange | ⟨r, hcommit, rfl⟩
  · exact hchange.books hb
  · exact hb.of_same rfl rfl rfl rfl rfl (fun _ _ hv => hcommit.time_persists hv)

/-- **The books of every run.** -/
theorem Steps.books (h : Steps sv s s') (hb : Books sv s) : Books sv s' := by
  induction h with
  | refl => exact hb
  | tail _ hstep ih => exact hstep.books ih

/-! ## Slots over a run -/

def Active (s : ScheduleStore A) (id : String) : Prop :=
  ∃ row, s.schedules.lookup id = some row ∧ row.payload.status = .active

theorem Evidence.isActive (hev : Evidence sv s id schedule record)
    (hactive : record.status = .active) : Active s id := by
  have hrec := hev.record_eq
  subst hrec
  exact ⟨schedule, hev.stored, hactive⟩

/-- What becomes of the slot of a key: it evolves, and only an active schedule gets a slot or a
binding. -/
structure SlotStep (s s' : ScheduleStore A) (key : String × Occurrence) : Prop where
  stored : ∀ a, s.slots.lookup key = some a → ∃ b, s'.slots.lookup key = some b ∧ Evolves a b ∧
    (Active s key.1 ∨ b.invocationId = a.invocationId)
  absent : s.slots.lookup key = none → Active s key.1 ∨ s'.slots.lookup key = none

theorem SlotStep.of_eq (h : s'.slots.lookup key = s.slots.lookup key) : SlotStep s s' key :=
  ⟨fun a ha => ⟨a, h.trans ha, Evolves.refl a, Or.inr rfl⟩, fun hnone => Or.inr (h.trans hnone)⟩

theorem SlotStep.setSlot (hrow : s.slots.lookup k = some row) (hevolves : Evolves row (f row))
    (hinv : (f row).invocationId = row.invocationId) (key : String × Occurrence) :
    SlotStep s (setSlot k f s) key := by
  by_cases hk : key = k
  · subst hk
    refine ⟨fun a ha => ?_, fun hnone => Or.inr (lookup_setSlot_none hnone)⟩
    obtain rfl : row = a := Option.some.inj (hrow.symm.trans ha)
    exact ⟨f row, lookup_setSlot_self hrow, hevolves, Or.inr hinv⟩
  · exact SlotStep.of_eq (lookup_setSlot_ne hk)

theorem SlotStep.inserted (hnone : s.slots.lookup key = none) (hactive : Active s key.1) :
    SlotStep s s' key := by
  refine ⟨fun a ha => ?_, fun _ => Or.inl hactive⟩
  rw [hnone] at ha
  cases ha

/-- **What every change does to the slots.** -/
theorem Change.slotStep (h : Change sv s s') (hb : Books sv s) (key : String × Occurrence) :
    SlotStep s s' key := by
  cases h with
  | untouched => exact SlotStep.of_eq rfl
  | created => exact SlotStep.of_eq rfl
  | claimed request _ _ _ row hrec =>
    exact SlotStep.setSlot (f := fun _ => claimedSlot request row) hrec.stored
      (claimedSlot_evolves request row) rfl key
  | admitted _ _ schedule record _ _ hadm =>
    by_cases hk : key = nextKey record
    · obtain ⟨hrow, rfl⟩ := hadm.evidence.books hb
      subst hk
      exact SlotStep.inserted hadm.fresh
        ⟨schedule, hadm.evidence.stored, hrow.status.trans hadm.active⟩
    · refine SlotStep.of_eq ?_
      rw [lookup_admitStore, if_neg hk]
  | bound claim _ _ _ _ _ _ _ _ _ hev hactive hrow hfence hunbound =>
    by_cases hk : key = claim.key
    · subst hk
      refine ⟨fun a ha => ?_, fun _ => Or.inl (hev.isActive hactive)⟩
      rw [hrow, Option.some.injEq] at ha
      rw [← ha]
      exact ⟨_, lookup_setSlot_self hrow, boundSlot_evolves _ hfence.2.2.2.2 hunbound,
        Or.inl (hev.isActive hactive)⟩
    · exact SlotStep.of_eq (Table.lookup_updateWhere_ne hk)
  | triggered request _ _ _ _ _ hev hactive _ habsent =>
    by_cases hk : key = request.key
    · subst hk
      exact SlotStep.inserted habsent (hev.isActive hactive)
    · refine SlotStep.of_eq ?_
      exact (lookup_setSlot_ne hk).trans
        ((Table.lookup_updateWhere_ne hk).trans (Table.lookup_put_ne hk))
  | retriggered request _ _ row _ _ _ _ _ _ hrow hunbound =>
    exact absurd hunbound (hb.triggers request.scheduleId request.cycleKey row hrow)
  | renewed _ _ _ row hrow hfence =>
    exact SlotStep.setSlot hrow (open_evolves hfence.2.2.2.2 row.state _) rfl key
  | waited _ _ _ hrow hfence =>
    exact SlotStep.setSlot hrow (open_evolves hfence.2.2.2.2 .waiting none) rfl key
  | finished _ _ _ _ _ _ _ status _ _ hrow hfence =>
    have hslot := SlotStep.setSlot (f := finishedSlot status) hrow
      (open_evolves hfence.2.2.2.2 status.slot none) rfl key
    exact ⟨hslot.stored, hslot.absent⟩
  | cancelled id =>
    refine ⟨fun a ha => ?_, fun hnone => Or.inr ?_⟩
    · obtain ⟨b, hb', hab⟩ := cancelSlots_evolve (s := s) id key a ha
      refine ⟨b, hb', hab, Or.inr ?_⟩
      rw [lookup_cancelSlots, ha, Option.map_some, Option.some.injEq] at hb'
      rw [← hb']
      split
      · exact cancelledSlot_invocationId a
      · rfl
    · have hold : (cancelSlots id s).slots.lookup key = none := by
        rw [lookup_cancelSlots, hnone]
        rfl
      exact hold

theorem Change.slotsEvolve (h : Change sv s s') (hb : Books sv s) : SlotsEvolve s s' := by
  intro key a ha
  obtain ⟨b, hb', hab, -⟩ := (h.slotStep hb key).stored a ha
  exact ⟨b, hb', hab⟩

/-- Over a run, slots evolve: none disappears, and none loses its invocation. -/
theorem Steps.slotsEvolve (h : Steps sv s s') (hb : Books sv s) : SlotsEvolve s s' := by
  induction h with
  | refl => exact SlotsEvolve.refl_of_eq rfl
  | tail hrun hstep ih =>
    rcases hstep.change_or_commit with hchange | ⟨r, -, rfl⟩
    · exact ih.trans (hchange.slotsEvolve (Steps.books hrun hb))
    · exact ih.trans (SlotsEvolve.refl_of_eq rfl)

/-! ## The evidence check -/

theorem mem_occurrencesOf : occ ∈ occurrencesOf s id ↔ s.slots.lookup (id, occ) ≠ none := by
  simp only [occurrencesOf, List.mem_map, Table.mem_selectRows, decide_eq_true_eq]
  constructor
  · rintro ⟨⟨⟨id', occ'⟩, row⟩, ⟨hrow, rfl⟩, rfl⟩
    rw [Table.mem_rows.mp hrow]
    simp
  · intro h
    obtain ⟨row, hrow⟩ := Option.ne_none_iff_exists'.mp h
    exact ⟨((id, occ), row), ⟨Table.mem_rows.mpr hrow, rfl⟩, rfl⟩

theorem mem_expectedOccurrences {nextSequence : ℕ} :
    occ ∈ expectedOccurrences nextSequence ↔
      ∃ n, occ = .slot n ∧ 1 ≤ n ∧ n < nextSequence := by
  simp only [expectedOccurrences, List.mem_map, List.mem_range'_1]
  constructor
  · rintro ⟨n, ⟨h1, hn⟩, rfl⟩
    exact ⟨n, rfl, h1, by omega⟩
  · rintro ⟨n, rfl, h1, hn⟩
    exact ⟨n, ⟨h1, by omega⟩, rfl⟩

theorem Calendar.occurrencesAgree (h : Calendar s id r) : occurrencesAgree s id r.nextSequence := by
  constructor
  · intro occ hocc
    exact mem_expectedOccurrences.mpr ((h.occurrences occ).mp (mem_occurrencesOf.mp hocc))
  · intro occ hocc
    exact mem_occurrencesOf.mpr ((h.occurrences occ).mpr (mem_expectedOccurrences.mp hocc))

def recordOf (row : ScheduleRow) : ScheduleRecord := { row.payload with leaseUntil := row.leaseUntil }

/-- `_get` answers every stored schedule that the deployment's authority verifier, if
there is one, accepts. -/
theorem Books.readSchedule (hb : Books sv s) {row : ScheduleRow}
    (hrow : s.schedules.lookup id = some row) (hauth : verifyAuthority sv s (recordOf row) = .ok ())
    :
    readSchedule sv id s = .ok (some (recordOf row)) := by
  have hbooks : RowBooks sv s id row := hb.rows id row hrow
  refine readSchedule_eq_some.mpr ⟨row, hrow, rfl, hbooks.status, hbooks.nextRunAt, hbooks.valid,
    hbooks.definition, fun hon => ?_, hbooks.profile, hauth⟩
  exact (hbooks.calendar hon).occurrencesAgree

/-! ## Nominal instants -/

/-- The nominal instant of the `n`-th occurrence of a schedule. -/
def nominal (s : ScheduleStore A) (id : String) (n : ℕ) : Option ℚ :=
  (s.slots.lookup (id, .slot n)).map SlotRow.nominalAt

/-- The recorded completion of the invocation of the `n`-th occurrence. -/
def completion (s : ScheduleStore A) (id : String) (n : ℕ) : Option ℚ :=
  (s.slots.lookup (id, .slot n)).bind fun slot => slot.invocationId.bind fun i =>
    (s.runtime.terminalTimes.lookup i).map TerminalTime.completedAt

/-- Later occurrences have later nominal instants. -/
def NominalIncreasing (s : ScheduleStore A) (id : String) : Prop :=
  ∀ m n x y, m < n → nominal s id m = some x → nominal s id n = some y → x < y

theorem nominal_eq_some {n : ℕ} {x : ℚ} (h : nominal s id n = some x) :
    ∃ a, s.slots.lookup (id, .slot n) = some a ∧ a.nominalAt = x :=
  Option.map_eq_some_iff.mp h

theorem FollowsOn.completion {n : ℕ} {t : ℚ} (h : FollowsOn s a interval t)
    (ha : s.slots.lookup (id, .slot n) = some a) :
    ∃ c, completion s id n = some c ∧ t = c + interval := by
  obtain ⟨i, value, hi, hvalue, ht⟩ := h
  refine ⟨value.completedAt, ?_, ht⟩
  unfold Schedules.completion
  rw [ha, Option.bind_some, hi, Option.bind_some, hvalue]
  rfl

/-- Instants that grow from each occurrence to the next grow. -/
theorem Calendar.nominalIncreasing (h : Calendar s id r)
    (hnext : ∀ n x y, nominal s id n = some x → nominal s id (n + 1) = some y → x < y) :
    NominalIncreasing s id := by
  intro m n x y hmn hx hy
  -- induction on the later number; the occurrences between the two are all stored
  induction n, hmn using Nat.le_induction generalizing y with
  | base => exact hnext m x y hx hy
  | succ n _ ih =>
    obtain ⟨a, ha, -⟩ := nominal_eq_some hx
    obtain ⟨b, hb, -⟩ := nominal_eq_some hy
    have hane : s.slots.lookup (id, .slot m) ≠ none := by simp [ha]
    have hbne : s.slots.lookup (id, .slot (n + 1)) ≠ none := by simp [hb]
    obtain ⟨_, hm, hm1, -⟩ := (h.occurrences _).mp hane
    obtain ⟨_, hn', -, hlt⟩ := (h.occurrences _).mp hbne
    cases hm
    cases hn'
    have hstored : s.slots.lookup (id, .slot n) ≠ none :=
      (h.occurrences _).mpr ⟨n, rfl, by omega, by omega⟩
    obtain ⟨c, hc⟩ := Option.ne_none_iff_exists'.mp hstored
    have hz : nominal s id n = some c.nominalAt := by
      unfold nominal
      rw [hc]
      rfl
    exact (ih c.nominalAt hz).trans (hnext n _ y hz hy)

/-- The nominal instants of an `after` schedule grow exactly as long as no occurrence
completes, by its recorded time, an interval or more before its own nominal instant. -/
theorem Calendar.after_increasing_iff (h : Calendar s id r)
    (hfollow : ∀ n x y, nominal s id n = some x → nominal s id (n + 1) = some y →
      ∃ t, Schedules.completion s id n = some t ∧ y = t + interval) : NominalIncreasing s id ↔
      ∀ n x t, nominal s id n = some x → nominal s id (n + 1) ≠ none →
        Schedules.completion s id n = some t → x < t + interval := by
  constructor
  · intro hinc n x t hx hnext ht
    obtain ⟨y, hy⟩ := Option.ne_none_iff_exists'.mp hnext
    obtain ⟨t', ht', heq⟩ := hfollow n x y hx hy
    obtain rfl : t' = t := Option.some.inj (ht'.symm.trans ht)
    rw [← heq]
    exact hinc n (n + 1) x y (Nat.lt_succ_self n) hx hy
  · intro hlate
    refine h.nominalIncreasing fun n x y hx hy => ?_
    obtain ⟨t, ht, heq⟩ := hfollow n x y hx hy
    rw [heq]
    refine hlate n x t hx ?_ ht
    rw [hy]
    simp

/-- Two open occurrences of an `after` schedule are the same one. -/
theorem Calendar.open_unique {occ' : Occurrence} (h : Calendar s id r)
    (hkind : r.definition.kind = .after) (ha : s.slots.lookup (id, occ) = some a)
    (hb : s.slots.lookup (id, occ') = some b) (hopen : a.state.terminal = false)
    (hopen' : b.state.terminal = false) : occ = occ' := by
  obtain ⟨n, rfl⟩ := h.numbered ha
  obtain ⟨m, rfl⟩ := h.numbered hb
  have hn := (h.last_open hkind n a ha hopen).1
  have hm := (h.last_open hkind m b hb hopen').1
  congr 1
  omega

/-- While an instant is due, no occurrence of an `after` schedule is open. -/
theorem Calendar.closed_of_due (h : Calendar s id r) (hkind : r.definition.kind = .after)
    (hdue : r.nextRunAt ≠ 0) (ha : s.slots.lookup (id, occ) = some a) :
    a.state.terminal = true := by
  obtain ⟨n, rfl⟩ := h.numbered ha
  by_contra hterm
  exact hdue (h.last_open hkind n a ha (by simpa using hterm)).2

/-- An occurrence that has a successor is over. -/
theorem Calendar.closed_of_next {n : ℕ} (h : Calendar s id r) (hkind : r.definition.kind = .after)
    (ha : s.slots.lookup (id, .slot n) = some a) (hb : s.slots.lookup (id, .slot (n + 1)) = some b)
    :
    a.state.terminal = true := by
  by_contra hterm
  have hlast := (h.last_open hkind n a ha (by simpa using hterm)).1
  have hne : s.slots.lookup (id, .slot (n + 1)) ≠ none := by simp [hb]
  obtain ⟨m, hm, -, hlt⟩ := (h.occurrences _).mp hne
  cases hm
  omega

/-- **`after` schedules do not overlap.**  In every run an `after` schedule has at most one open
occurrence, and none while its next instant is due.  An occurrence that has a successor is over, and
the successor was due one interval after its recorded completion; so is the next instant, once there
is an occurrence to follow. -/
theorem after_schedules_never_overlap {s₀ : ScheduleStore A} (hinit : Initial s₀)
    (hrun : Steps sv s₀ s) {id : String} {row : ScheduleRow}
    (hrow : s.schedules.lookup id = some row) (hkind : row.payload.definition.kind = .after) :
    (∀ occ occ' a b, s.slots.lookup (id, occ) = some a → s.slots.lookup (id, occ') = some b →
      a.state.terminal = false → b.state.terminal = false → occ = occ') ∧
    (row.nextRunAt ≠ 0 → ∀ occ a, s.slots.lookup (id, occ) = some a → a.state.terminal = true) ∧
    ∃ interval, row.payload.definition.intervalSeconds = some interval ∧
      (∀ n a b, s.slots.lookup (id, .slot n) = some a →
        s.slots.lookup (id, .slot (n + 1)) = some b → a.state.terminal = true ∧
          ∃ t, completion s id n = some t ∧ b.nominalAt = t + interval) ∧
      (row.nextRunAt ≠ 0 → ∀ n, 1 ≤ n → n + 1 = row.payload.nextSequence →
        ∃ t, completion s id n = some t ∧ row.nextRunAt = t + interval) := by
  have hbooks : RowBooks sv s id row := (hrun.books hinit.books).rows id row hrow
  have hcal : Calendar s id row.payload := hbooks.calendar (by rw [hkind]; decide)
  obtain ⟨interval, hint, hpairs, hlast⟩ := hcal.after hkind
  refine ⟨fun occ occ' a b ha hb => hcal.open_unique hkind ha hb, ?_, interval, hint, ?_, ?_⟩
  · intro hdue occ a ha
    exact hcal.closed_of_due hkind (by rw [hbooks.nextRunAt]; exact hdue) ha
  · intro n a b ha hb
    exact ⟨hcal.closed_of_next hkind ha hb, (hpairs n a b ha hb).completion ha⟩
  · intro hdue n hpos hn
    have hstored : s.slots.lookup (id, .slot n) ≠ none :=
      (hcal.occurrences _).mpr ⟨n, rfl, hpos, by omega⟩
    obtain ⟨a, ha⟩ := Option.ne_none_iff_exists'.mp hstored
    rw [← hbooks.nextRunAt] at hdue ⊢
    exact (hlast hdue n a hn ha).completion ha

/-! ## A completion that is recorded before its occurrence was due

Schedulers and engines read their own clocks.  A schedule `after` ten seconds is created at
90 and claimed at 100; the engine records the completion of its invocation at 50, and the
next occurrence is due at 60. -/

namespace EarlyCompletion

def calendar : ScheduleCalendar where
  durationSeconds _ := some 10
  listenCapability _ := .ok ()
  croniter _ after _ := .ok (some (after + 60))

def services : ScheduleServices Unit where
  calendar := calendar
  slotKey key := key.1
  sha256 snapshot := snapshot.revision
  authorityExpectation := none
  authorityVerifier := none
  authorityParticipant := none
  invocationAuthority := none

def empty : ScheduleStore Unit where
  runtime := ⟨⟨0, ∅⟩, ∅, ∅, ∅, []⟩
  authority := ()
  schedules := ∅
  definitions := ∅
  slots := ∅
  bindings := ∅
  createdAt := ∅

def request : CreateRequest where
  plan := ⟨"report", "1.0.0", "fingerprint", .obj [("schedule", .obj [("after", .str "PT10S")])]⟩
  input := .null
  operationKey := none
  now := 90
  ownerPrincipal := none
  eventScope := "anonymous"
  timezone := "UTC"
  scheduleId := "schedule"

def claimAt (now : ℚ) : ClaimRequest := ⟨now, 30, "scheduler", none, [], fun _ => true⟩

def claim : ScheduleClaim := ⟨"schedule", .slot 1, "scheduler", 1, 130⟩

def claimed : ClaimedRecord where
  record := newRecord request ⟨.after, some 10, none, none, .data⟩ 100
  claim := some claim
  same := by simp [claim, newRecord, request]

def fresh : FreshIds :=
  ⟨"invocation", "reference", "session", "0123456789abcdef0123456789abcdef"⟩

/-- The schedule is created, its first occurrence claimed and bound. -/
def bound : ScheduleStore Unit :=
  (Operation.bindInvocation claimed "engine" 101 fresh).apply services
    ((Operation.claimDue (claimAt 100)).apply services
      ((Operation.create request).apply services empty))

def running : Snapshot :=
  ⟨⟨scheduledIdentity claimed.record "engine" fresh, .running, .null, .null⟩, fresh.revision⟩

def done : Snapshot :=
  ⟨{ running.record with status := .completed }, "fedcba9876543210fedcba9876543210"⟩

/-- The engine completes the invocation, at 50 by its own clock. -/
def completedRuntime : RuntimeStore :=
  { bound.runtime with
    invocations := bound.runtime.invocations.put done.invocationId ⟨done, .completed⟩
    history := done :: bound.runtime.history
    terminalTimes := bound.runtime.terminalTimes.insertNew done.invocationId
      (Invocations.terminalTimeOf services.sha256 done 50) }

/-- The occurrence is finished, and the next one claimed. -/
def final : ScheduleStore Unit :=
  (Operation.claimDue (claimAt 103)).apply services
    ((Operation.finish "schedule" "invocation" .completed 102 (some claim)).apply services
      { bound with runtime := completedRuntime })

theorem completes : Invocations.Overwrites services.sha256 running done 50 bound.runtime
    completedRuntime where
  stored := by decide +kernel
  active := rfl
  transition := by decide
  identity := rfl
  valid := by decide
  invocations := rfl
  history := rfl
  terminalTimes := rfl
  instant_pos _ := by norm_num

theorem reaches : Steps services empty final := by
  have hbound : Steps services empty bound :=
    ((Relation.ReflTransGen.single (Step.operation _)).tail (Step.operation _)).tail
      (Step.operation _)
  have hdone : Step services bound { bound with runtime := completedRuntime } :=
    Step.invocation completedRuntime (.overwritten running done 50 completes)
  exact ((hbound.tail hdone).tail (Step.operation _)).tail (Step.operation _)

end EarlyCompletion

/-- In that run the first occurrence is over, and the second one, which is still open, is due one
interval after its completion. -/
theorem after_schedule_of_early_completion :
    ∃ row interval, EarlyCompletion.final.schedules.lookup "schedule" = some row ∧
      row.payload.definition.intervalSeconds = some interval ∧
      ∀ a b, EarlyCompletion.final.slots.lookup ("schedule", .slot 1) = some a →
        EarlyCompletion.final.slots.lookup ("schedule", .slot 2) = some b →
        a.state.terminal = true ∧
          ∃ t, completion EarlyCompletion.final "schedule" 1 = some t ∧
            b.nominalAt = t + interval := by
  have hstored : (EarlyCompletion.final.schedules.lookup "schedule").map
      (fun row => row.payload.definition.kind) = some .after := by decide +kernel
  obtain ⟨row, hrow, hkind⟩ := Option.map_eq_some_iff.mp hstored
  have hinit : Initial EarlyCompletion.empty := ⟨rfl, rfl, rfl, rfl⟩
  obtain ⟨-, -, interval, hint, hfollow, -⟩ :=
    after_schedules_never_overlap hinit EarlyCompletion.reaches hrow hkind
  exact ⟨row, interval, hrow, hint, hfollow 1⟩

end Schedules
