/-
# Lookups of definitions

`definition_at_pointer` finds the tasks of a workflow.  The text of a pointer splits into its
tokens again, whatever names they have, a position is read back as the number it is, and a step of
the lookup goes to the value under a name.  So where the task lists of a workflow have the shape
that the schema asks for, the lookup of the pointer to a task gives the definition of that task
(`SourceTask.definitionAtPointer_eq`), and a pointer leads to one task only.
-/
import OpenWorkflowAgent.DefinitionTrees

/-! ## Texts of pointers -/

namespace Pointer

theorem replaceEscape_cons {digit c d : Char} (h : d ≠ '~') (rest : List Char) :
    replaceEscape digit c (d :: rest) = d :: replaceEscape digit c rest := by
  cases rest with
  | nil => rfl
  | cons e rest => simp [replaceEscape, h]

/-- What is left of a token after the first replacement: a tilde is still escaped. -/
def escapeTilde (c : Char) : List Char := if c = '~' then ['~', '0'] else [c]

theorem replaceEscape_slash (l : List Char) :
    replaceEscape '1' '/' (l.flatMap escapeChar) = l.flatMap escapeTilde := by
  induction l with
  | nil => rfl
  | cons c l ih =>
    rw [List.flatMap_cons, List.flatMap_cons, ← ih]
    by_cases htilde : c = '~'
    · subst htilde
      show replaceEscape '1' '/' ('~' :: '0' :: l.flatMap escapeChar) = _
      rw [replaceEscape, if_neg (by decide), replaceEscape_cons (by decide)]
      rfl
    · by_cases hslash : c = '/'
      · subst hslash
        rfl
      · have hescape : escapeChar c = [c] := by simp [escapeChar, htilde, hslash]
        have htilde' : escapeTilde c = [c] := by simp [escapeTilde, htilde]
        rw [hescape, htilde']
        exact replaceEscape_cons htilde _

theorem replaceEscape_tilde (l : List Char) :
    replaceEscape '0' '~' (l.flatMap escapeTilde) = l := by
  induction l with
  | nil => rfl
  | cons c l ih =>
    rw [List.flatMap_cons]
    by_cases htilde : c = '~'
    · subst htilde
      show '~' :: replaceEscape '0' '~' (l.flatMap escapeTilde) = _
      rw [ih]
    · have htilde' : escapeTilde c = [c] := by simp [escapeTilde, htilde]
      rw [htilde', List.singleton_append, replaceEscape_cons htilde, ih]

theorem pointerName_token (name : String) : pointerName (token name) = name := by
  unfold pointerName token
  rw [replaceEscape_slash, replaceEscape_tilde, String.ofList_toList]

theorem intercalate_token (first : String) (rest : Pointer) :
    ['/'].intercalate ((first :: rest).map token) = token first ++ chars rest := by
  induction rest generalizing first with
  | nil => simp [List.intercalate]
  | cons second rest ih =>
    have hsecond := ih second
    rw [List.map_cons] at hsecond
    rw [List.map_cons, List.map_cons, List.intercalate_cons_cons, hsecond, chars_cons]
    simp

/-- A pointer is read back from its text.  Leading slashes are dropped, so its first name must not
be empty. -/
theorem tokens_text {first : String} (hfirst : first ≠ "") (rest : Pointer) :
    tokens (text (first :: rest)) = first :: rest := by
  have hchars : (text (first :: rest)).toList = '/' :: (token first ++ chars rest) := by
    rw [text, String.toList_ofList, chars_cons]
  have hdrop : ('/' :: (token first ++ chars rest)).dropWhile (fun c => c = '/') =
      token first ++ chars rest := by
    rw [List.dropWhile_cons_of_pos (by simp)]
    cases htoken : token first with
    | nil =>
      have hempty : token first = token "" := htoken
      exact absurd (token_injective hempty) hfirst
    | cons c cs =>
      have hslash : c ≠ '/' := by
        intro hc
        have hmem : '/' ∈ token first := by
          rw [htoken, hc]
          exact List.mem_cons_self
        exact slash_notMem_token first hmem
      exact List.dropWhile_cons_of_neg (by simpa using hslash)
  have hsplit : (token first ++ chars rest).splitOn '/' = (first :: rest).map token := by
    rw [← intercalate_token]
    refine List.splitOn_intercalate '/' ?_ (by simp)
    intro l hl
    obtain ⟨name, -, rfl⟩ := List.mem_map.mp hl
    exact slash_notMem_token name
  unfold tokens
  rw [hchars, hdrop, hsplit, List.map_map]
  refine (List.map_congr_left fun name _ => ?_).trans (List.map_id _)
  exact pointerName_token name

theorem decimal?_toString (n : ℕ) : decimal? (toString n) = some n := by
  have hlist : (toString n).toList = Nat.toDigits 10 n := Nat.toList_repr
  have hne : toString n ≠ "" := by
    intro h
    rw [h] at hlist
    exact Nat.toDigits_ne_nil hlist.symm
  have hdigits : (toString n).toList.all Char.isDigit := by
    rw [hlist, List.all_eq_true]
    intro c hc
    exact Nat.isDigit_of_mem_toDigits (by decide) (by decide) hc
  unfold decimal?
  rw [if_pos ⟨hne, hdigits⟩, hlist, Nat.ofDigitChars_toDigits (by decide) (by decide)]

end Pointer

namespace Definitions

/-! ## Task lists of the shape of the schema -/

/-- A list of tasks as the schema has it: each item is a mapping of one name to a mapping. -/
def TaskListShaped (list : Json) : Prop :=
  ∃ items, list = .arr items ∧ ∀ item ∈ items, ∃ name fields, item = .obj [(name, .obj fields)]

/-- The task lists of a workflow have the shape of the schema: that of the workflow, and those of
its tasks and functions. -/
structure Shaped (workflow : Json) : Prop where
  root : ∀ list, workflow.field? "do" = some list → TaskListShaped list
  nested : ∀ pointer name d, SourceTask workflow pointer name d → ∀ (place : Place) (list : Json),
    place.value d = some list → TaskListShaped list

variable {name : String}

/-- A task of a list is the only one of its item. -/
theorem ListHas.item {list : Json} {index : ℕ} {d : Json} (hshaped : TaskListShaped list)
    (h : ListHas (some list) index name d) :
    ∃ items fields, list = .arr items ∧ items[index]? = some (.obj [(name, d)]) ∧
      d = .obj fields := by
  obtain ⟨items, rfl, hitems⟩ := hshaped
  obtain ⟨_, fields, heq, hget, hmem⟩ := h
  cases heq
  obtain ⟨name', fields', hitem⟩ := hitems _ (List.mem_of_getElem? hget)
  cases hitem
  cases List.mem_singleton.mp hmem
  exact ⟨items, fields', rfl, hget, rfl⟩

/-! ## Lookups -/

theorem lookUp_field {value inner : Json} (h : value.field? name = some inner) :
    value.lookUp name = inner := by
  cases value with
  | obj fields => simp [Json.lookUp, h]
  | _ => cases h

theorem lookUp_index {items : List Json} {index : ℕ} {item : Json}
    (h : items[index]? = some item) : (Json.arr items).lookUp (toString index) = item := by
  show ((Pointer.decimal? (toString index)).bind fun index => items[index]?).getD .null = item
  rw [Pointer.decimal?_toString, Option.bind_some, h, Option.getD_some]

/-- From a list on to the definition of a task of it. -/
theorem ListHas.foldl_lookUp {list : Json} {index : ℕ} {d : Json} (hshaped : TaskListShaped list)
    (h : ListHas (some list) index name d) :
    [toString index, name].foldl Json.lookUp list = d := by
  obtain ⟨items, fields, rfl, hget, -⟩ := h.item hshaped
  show ((Json.arr items).lookUp (toString index)).lookUp name = d
  rw [lookUp_index hget]
  exact lookUp_field (by simp [Json.field?])

/-- From a definition on to a list of tasks of it. -/
theorem Place.foldl_lookUp {place : Place} {d list : Json} (h : place.value d = some list) :
    place.suffix.foldl Json.lookUp d = list := by
  have htwo : ∀ {outer inner : String},
      (d.field? outer).bind (Json.field? inner) = some list →
      (d.lookUp outer).lookUp inner = list := by
    intro outer inner hbind
    obtain ⟨value, hvalue, hinner⟩ := Option.bind_eq_some_iff.mp hbind
    rw [lookUp_field hvalue, lookUp_field hinner]
  cases place with
  | sequence => exact lookUp_field h
  | attempt => exact lookUp_field h
  | handler => exact htwo h
  | iterator =>
    have hvalue : (WorkflowPlan.iteratorOf d).bind (Json.field? "do") = some list := h
    unfold WorkflowPlan.iteratorOf at hvalue
    split at hvalue
    · exact htwo hvalue
    · cases hvalue
  | branches => exact htwo h

variable {workflow : Json} {pointer : Pointer}

theorem SourceTask.foldl_lookUp (hshaped : Shaped workflow) {d : Json}
    (h : SourceTask workflow pointer name d) :
    pointer.foldl Json.lookUp workflow = d := by
  induction h with
  | @root index name d hhas =>
    cases hlist : workflow.field? "do" with
    | none =>
      rw [hlist] at hhas
      obtain ⟨_, _, heq, -⟩ := hhas
      cases heq
    | some list =>
      rw [hlist] at hhas
      show [toString index, name].foldl Json.lookUp (workflow.lookUp "do") = d
      rw [lookUp_field hlist]
      exact hhas.foldl_lookUp (hshaped.root list hlist)
  | @function name d hfunction =>
    rw [functionsOf_field?] at hfunction
    obtain ⟨functions, hfunctions, hname⟩ := Option.bind_eq_some_iff.mp hfunction
    obtain ⟨use, huse, hfunctions⟩ := Option.bind_eq_some_iff.mp hfunctions
    show ((workflow.lookUp "use").lookUp "functions").lookUp name = d
    rw [lookUp_field huse, lookUp_field hfunctions, lookUp_field hname]
  | @nested pointer parent d place index name inner hparent hhas ih =>
    rw [List.foldl_append, List.foldl_append, ih]
    obtain ⟨items, _, hvalue, -⟩ := id hhas
    rw [Place.foldl_lookUp hvalue]
    unfold HasTask at hhas
    rw [hvalue] at hhas
    exact hhas.foldl_lookUp (hshaped.nested pointer parent d hparent place _ hvalue)

/-- A pointer to a task starts with `do` or `use`. -/
theorem SourceTask.head {d : Json} (h : SourceTask workflow pointer name d) :
    ∃ first rest, pointer = first :: rest ∧ first ≠ "" := by
  induction h with
  | root _ => exact ⟨_, _, rfl, by decide⟩
  | function _ => exact ⟨_, _, rfl, by decide⟩
  | nested _ _ ih =>
    obtain ⟨first, rest, rfl, hfirst⟩ := ih
    exact ⟨first, _, rfl, hfirst⟩

theorem SourceTask.definitionAtPointer_eq (hshaped : Shaped workflow) {d : Json}
    (h : SourceTask workflow pointer name d) :
    definitionAtPointer workflow (Pointer.text pointer) = d := by
  obtain ⟨first, rest, rfl, hfirst⟩ := h.head
  unfold definitionAtPointer
  rw [Pointer.tokens_text hfirst]
  exact h.foldl_lookUp hshaped

end Definitions
