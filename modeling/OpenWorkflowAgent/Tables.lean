/-
# Keyed tables

A table with a primary key is a finite map from keys to rows.  The statements
used on it are the ones of SQL: look up a key, `INSERT … ON CONFLICT DO
NOTHING`, `UPDATE` of the row of one key, `UPDATE` of all rows, `DELETE … WHERE`
and `SELECT … WHERE … ORDER BY`.  Mathlib's association lists with distinct keys
carry the primary-key constraint; this file adds the statements they lack and
says what each does to a lookup.
-/
import Mathlib

/-- A table with primary key `K` and rows `V`. -/
abbrev Table (K V : Type) := AList (fun _ : K => V)

namespace Table

variable {K V : Type}

section Rows

def rows (t : Table K V) : List (K × V) := t.entries.map fun e => (e.1, e.2)

/-- `UPDATE` of every row, the primary key kept. -/
def mapRows (f : K → V → V) (t : Table K V) : Table K V where
  entries := t.entries.map fun e => ⟨e.1, f e.1 e.2⟩
  nodupKeys := by
    have hk : (t.entries.map fun e => (⟨e.1, f e.1 e.2⟩ : Sigma fun _ : K => V)).keys
        = t.entries.keys := by
      simp only [List.keys, List.map_map, Function.comp_def]
    show (List.map _ t.entries).keys.Nodup
    rw [hk]
    exact t.nodupKeys

/-- `DELETE` of the rows that fail `p`. -/
def keepWhere (p : K → V → Bool) (t : Table K V) : Table K V where
  entries := t.entries.filter fun e => p e.1 e.2
  nodupKeys := List.NodupKeys.sublist List.filter_sublist t.nodupKeys

/-- `SELECT … WHERE p`: the rows that satisfy `p`. -/
def selectRows (p : K → V → Bool) (t : Table K V) : List (K × V) :=
  t.rows.filter fun r => p r.1 r.2

theorem mem_selectRows {p : K → V → Bool} {t : Table K V} {r : K × V} :
    r ∈ t.selectRows p ↔ r ∈ t.rows ∧ p r.1 r.2 = true := by
  unfold selectRows
  rw [List.mem_filter]

theorem nodup_rows_keys (t : Table K V) : (t.rows.map Prod.fst).Nodup := by
  have h : t.entries.keys.Nodup := t.nodupKeys
  simpa only [rows, List.map_map, List.keys, Function.comp_def] using h

theorem rows_keepWhere (p : K → V → Bool) (t : Table K V) :
    (t.keepWhere p).rows = t.rows.filter fun r => p r.1 r.2 := by
  simp only [rows, keepWhere, List.filter_map, Function.comp_def]

theorem rows_mapRows (f : K → V → V) (t : Table K V) :
    (t.mapRows f).rows = t.rows.map fun r => (r.1, f r.1 r.2) := by
  simp only [rows, mapRows, List.map_map, Function.comp_def]

end Rows

variable [DecidableEq K]

variable {t : Table K V}

theorem mem_rows {k : K} {v : V} :
    (k, v) ∈ t.rows ↔ t.lookup k = some v := by
  rw [← Option.mem_def, AList.mem_lookup_iff]
  simp only [rows, List.mem_map, Prod.mk.injEq]
  constructor
  · rintro ⟨⟨k', v'⟩, hmem, rfl, rfl⟩
    exact hmem
  · intro h
    exact ⟨⟨k, v⟩, h, rfl, rfl⟩

/-! ## Statements on one key -/

/-- `INSERT … ON CONFLICT DO UPDATE`: store a row under its key. -/
def put (k : K) (v : V) (t : Table K V) : Table K V := t.insert k v

@[simp] theorem lookup_put_self {k : K} {v : V} :
    (t.put k v).lookup k = some v :=
  AList.lookup_insert t

theorem lookup_put_ne {k k' : K} {v : V} (h : k' ≠ k) :
    (t.put k v).lookup k' = t.lookup k' :=
  AList.lookup_insert_ne h

theorem lookup_put {k k' : K} {v : V} :
    (t.put k v).lookup k' = if k' = k then some v else t.lookup k' := by
  by_cases h : k' = k
  · subst h
    rw [if_pos rfl, lookup_put_self]
  · rw [if_neg h, lookup_put_ne h]

theorem rows_put_of_none {k : K} (v : V) (h : t.lookup k = none) :
    (t.put k v).rows = (k, v) :: t.rows := by
  unfold rows put
  rw [AList.entries_insert_of_notMem (AList.lookup_eq_none.mp h)]
  rfl

/-- `INSERT … ON CONFLICT DO NOTHING`. -/
def insertNew (k : K) (v : V) (t : Table K V) : Table K V :=
  if t.lookup k = none then t.put k v else t

/-- `UPDATE … SET row = f row WHERE key = k AND p row`. -/
def updateWhere (k : K) (p : V → Bool) (f : V → V) (t : Table K V) : Table K V :=
  match t.lookup k with
  | some v => if p v then t.put k (f v) else t
  | none => t

theorem lookup_insertNew_of_some {k k' : K} {v v' : V} (h : t.lookup k' = some v') :
    (t.insertNew k v).lookup k' = some v' := by
  unfold insertNew
  by_cases hk : t.lookup k = none
  · have hne : k' ≠ k := by
      rintro rfl
      rw [h] at hk
      cases hk
    rw [if_pos hk, lookup_put_ne hne, h]
  · rw [if_neg hk, h]

theorem lookup_insertNew_self_of_none {k : K} {v : V} (h : t.lookup k = none) :
    (t.insertNew k v).lookup k = some v := by
  unfold insertNew
  rw [if_pos h, lookup_put_self]

theorem lookup_insertNew_ne {k k' : K} {v : V} (h : k' ≠ k) :
    (t.insertNew k v).lookup k' = t.lookup k' := by
  unfold insertNew
  split
  · rw [lookup_put_ne h]
  · rfl

theorem lookup_insertNew_cases {k k' : K} {v v' : V} (h : (t.insertNew k v).lookup k' = some v') :
    t.lookup k' = some v' ∨ (t.lookup k' = none ∧ k' = k ∧ v' = v) := by
  by_cases hk : k' = k
  · subst hk
    cases ho : t.lookup k' with
    | some w =>
      rw [lookup_insertNew_of_some ho] at h
      exact Or.inl h
    | none =>
      rw [lookup_insertNew_self_of_none ho, Option.some.injEq] at h
      exact Or.inr ⟨rfl, rfl, h.symm⟩
  · rw [lookup_insertNew_ne hk] at h
    exact Or.inl h

theorem lookup_updateWhere_ne {k k' : K} {p : V → Bool} {f : V → V} (h : k' ≠ k) :
    (t.updateWhere k p f).lookup k' = t.lookup k' := by
  unfold updateWhere
  cases t.lookup k with
  | none => rfl
  | some v =>
    simp only
    split
    · rw [lookup_put_ne h]
    · rfl

theorem lookup_updateWhere_self {k : K} {p : V → Bool} {f : V → V} :
    (t.updateWhere k p f).lookup k =
      (t.lookup k).map fun v => if p v then f v else v := by
  unfold updateWhere
  cases hk : t.lookup k with
  | none => simp only [hk, Option.map_none]
  | some v =>
    by_cases hp : p v
    · simp only [hp, if_true, lookup_put_self, Option.map_some]
    · simp only [hp, Bool.false_eq_true, if_false, hk, Option.map_some]

/-- An update of one row is one of all rows that looks at the key. -/
theorem lookup_updateWhere {k k' : K} {p : V → Bool} {f : V → V} :
    (t.updateWhere k p f).lookup k' =
      (t.lookup k').map fun v => if k' = k ∧ p v then f v else v := by
  by_cases h : k' = k
  · subst h
    simp [lookup_updateWhere_self]
  · simp [lookup_updateWhere_ne h, h]

theorem lookup_mapRows {f : K → V → V} {k : K} :
    (t.mapRows f).lookup k = (t.lookup k).map (f k) := by
  ext w
  rw [← mem_rows, rows_mapRows, List.mem_map, Option.map_eq_some_iff]
  constructor
  · rintro ⟨⟨k', v⟩, hmem, heq⟩
    simp only [Prod.mk.injEq] at heq
    obtain ⟨rfl, rfl⟩ := heq
    exact ⟨v, mem_rows.mp hmem, rfl⟩
  · rintro ⟨v, hv, rfl⟩
    exact ⟨(k, v), mem_rows.mpr hv, rfl⟩

theorem lookup_keepWhere {p : K → V → Bool} {k : K} :
    (t.keepWhere p).lookup k = (t.lookup k).filter (p k) := by
  ext w
  rw [← mem_rows, rows_keepWhere, List.mem_filter, mem_rows, Option.filter_eq_some_iff]

end Table
