/-
# Task references

The reference of a task names the tasks around it.  After the name of a task comes the
keyword of one of its scopes, and the keyword says how many tokens there are before the
name of the next task, so a reference is read from the left without looking at the names:
whatever a task is called, `ancestry` gives the references of the tasks around it.  The
steps of an occurrence have exactly these references; for a durable listener there is
also the step of the event between the listener and its tasks.

The tests that the source makes on texts of references are tests on tokens.
-/
import OpenWorkflowAgent.Interpreter

namespace Interpreter

/-! ## Tests on texts -/

variable {reference : Pointer}

theorem startsBelow_iff {parent : Pointer} :
    startsBelow parent reference = true ↔ ∃ name rest, reference = parent ++ name :: rest := by
  unfold startsBelow
  rw [List.isPrefixOf_iff_prefix]
  exact Pointer.chars_slash_prefix_iff

theorem endsWithMarker_iff :
    endsWithMarker reference = true ↔ ∃ p, ∃ marker ∈ attemptMarkers, reference = p ++ [marker] := by
  have hplain : ∀ marker ∈ attemptMarkers, Pointer.token marker = marker.toList := by
    decide
  unfold endsWithMarker
  rw [List.any_eq_true]
  constructor
  · rintro ⟨marker, hmarker, hsuffix⟩
    rw [List.isSuffixOf_iff_suffix] at hsuffix
    obtain ⟨p, hp⟩ := (Pointer.slash_suffix_chars_iff (hplain marker hmarker)).mp hsuffix
    exact ⟨p, marker, hmarker, hp⟩
  · rintro ⟨p, marker, hmarker, hp⟩
    refine ⟨marker, hmarker, ?_⟩
    rw [List.isSuffixOf_iff_suffix]
    exact (Pointer.slash_suffix_chars_iff (hplain marker hmarker)).mpr ⟨p, hp⟩

theorem endsWithMarker_append_singleton {p : Pointer} {name : String} :
    endsWithMarker (p ++ [name]) = true ↔ name ∈ attemptMarkers := by
  rw [endsWithMarker_iff]
  constructor
  · rintro ⟨q, marker, hmarker, h⟩
    obtain ⟨-, hname⟩ := List.append_inj' h rfl
    rw [List.cons.inj hname |>.1]
    exact hmarker
  · exact fun h => ⟨p, name, h, rfl⟩

/-! ## Reading a reference -/

/-- The references of the tasks in the rest of a reference, after the task `here`. -/
def tasksAfter (durable : Bool) : Pointer → Pointer → Option (List Pointer)
  | _, [] => some []
  | here, "do" :: index :: name :: rest =>
    (tasksAfter durable (here ++ ["do", index, name]) rest).map
      ([here ++ ["do", index, name]] ++ ·)
  | here, "try" :: index :: name :: rest =>
    (tasksAfter durable (here ++ ["try", index, name]) rest).map
      ([here ++ ["try", index, name]] ++ ·)
  | here, "catch" :: "do" :: index :: name :: rest =>
    (tasksAfter durable (here ++ ["catch", "do", index, name]) rest).map
      ([here ++ ["catch", "do", index, name]] ++ ·)
  | here, "foreach" :: "do" :: index :: name :: rest =>
    (tasksAfter durable (here ++ ["foreach", "do", index, name]) rest).map
      ((if durable then [here ++ ["@event"]] else []) ++
        [here ++ ["foreach", "do", index, name]] ++ ·)
  | here, "fork" :: "branches" :: index :: name :: rest =>
    (tasksAfter durable (here ++ ["fork", "branches", index, name]) rest).map
      ([here ++ ["fork", "branches", index, name]] ++ ·)
  | here, "call" :: name :: rest =>
    (tasksAfter durable (here ++ ["call", name]) rest).map ([here ++ ["call", name]] ++ ·)
  | _, _ => none

/-- The references of a task and of the tasks around it, from the outside. -/
def ancestry (durable : Bool) (reference : Pointer) : Option (List Pointer) :=
  tasksAfter durable [] reference

variable {durable : Bool}

/-- One task more on both sides. -/
theorem map_append_map {first later : List Pointer} {x y : Option (List Pointer)}
    (h : x = y.map (later ++ ·)) : x.map (first ++ ·) = y.map (first ++ later ++ ·) := by
  rw [h]
  cases y with
  | none => rfl
  | some => exact congrArg some (List.append_assoc _ _ _).symm

variable {here : Pointer} {tasks : List Pointer}

/-- A reference is read task by task. -/
theorem tasksAfter_append {a b : Pointer} (h : tasksAfter durable here a = some tasks) :
    tasksAfter durable here (a ++ b) =
      (tasksAfter durable (here ++ a) b).map (tasks ++ ·) := by
  fun_induction tasksAfter durable here a generalizing tasks with
  | case1 here =>
    cases h
    simp
  | case8 here a => cases h
  | _ =>
    rename_i ih
    obtain ⟨later, hlater, rfl⟩ := Option.map_eq_some_iff.mp h
    have hstep := ih hlater
    rw [List.append_assoc] at hstep
    exact map_append_map hstep

/-- No task around a task has a longer reference. -/
theorem length_le_of_mem_tasksAfter {a r : Pointer} (h : tasksAfter durable here a = some tasks)
    (hr : r ∈ tasks) :
    r.length ≤ here.length + a.length := by
  fun_induction tasksAfter durable here a generalizing tasks with
  | case1 here =>
    cases h
    cases hr
  | case8 here a => cases h
  | case5 here index name rest ih =>
    obtain ⟨later, hlater, rfl⟩ := Option.map_eq_some_iff.mp h
    have hle := fun hr : r ∈ later => ih hlater hr
    simp only [List.length_append, List.length_cons, List.length_nil] at hle
    simp only [List.mem_append, List.mem_singleton] at hr
    rcases hr with (hr | rfl) | hr
    · split at hr
      · rw [List.mem_singleton.mp hr]
        simp
      · cases hr
    · simp
    · have := hle hr
      simp only [List.length_cons]
      omega
  | _ =>
    rename_i ih
    obtain ⟨later, hlater, rfl⟩ := Option.map_eq_some_iff.mp h
    have hle := fun hr : r ∈ later => ih hlater hr
    simp only [List.length_append, List.length_cons, List.length_nil] at hle
    simp only [List.mem_append, List.mem_singleton] at hr
    rcases hr with rfl | hr
    · simp
    · have := hle hr
      simp only [List.length_cons]
      omega

/-- The last task is the one that the reference names. -/
theorem getLast_cons_tasksAfter {a : Pointer} (h : tasksAfter durable here a = some tasks) :
    (here :: tasks).getLast? = some (here ++ a) := by
  fun_induction tasksAfter durable here a generalizing tasks with
  | case1 here =>
    cases h
    simp
  | case8 here a => cases h
  | case5 here index name rest ih =>
    obtain ⟨later, hlater, rfl⟩ := Option.map_eq_some_iff.mp h
    have hlast := ih hlater
    rw [List.append_assoc] at hlast
    split
    · exact hlast
    · exact hlast
  | _ =>
    rename_i ih
    obtain ⟨later, hlater, rfl⟩ := Option.map_eq_some_iff.mp h
    have hlast := ih hlater
    rw [List.append_assoc] at hlast
    exact hlast

theorem ancestry_injective {a b : Pointer} (ha : ancestry durable a = some tasks)
    (hb : ancestry durable b = some tasks) : a = b := by
  have hlast := (getLast_cons_tasksAfter ha).symm.trans (getLast_cons_tasksAfter hb)
  simpa using hlast

theorem ancestry_append {a b : Pointer} (h : ancestry durable a = some tasks) :
    ancestry durable (a ++ b) = (tasksAfter durable a b).map (tasks ++ ·) := by
  have happend := tasksAfter_append (b := b) h
  rwa [List.nil_append] at happend

theorem length_le_of_mem_ancestry {r : Pointer} (h : ancestry durable reference = some tasks)
    (hr : r ∈ tasks) :
    r.length ≤ reference.length := by
  have hle := length_le_of_mem_tasksAfter h hr
  rwa [List.length_nil, zero_add] at hle

theorem ancestry_event (h : ancestry durable reference = some tasks) :
    ancestry durable (reference ++ ["@event"]) = none := by
  rw [ancestry_append h]
  rfl

end Interpreter
