/-
# Replacing a pattern in a list

`replaceAll old new` puts `new` in the place of every occurrence of `old`, taken from the left and
without overlaps, as the replacement of substrings does in most languages.  Repeated replacements
can spell a pattern anew, out of what stood left and right of an occurrence.  To say exactly when,
the elements carry a mark: `replaceMarked` is the same function on marked elements, where the mark
says that a replacement cut the list right before the element.

The two facts that matter: forgetting the marks gives `replaceAll` back, and a word without a cut
inside it (`Unbroken`) was there before or lies inside `new` — and it is never `old` itself.
-/
import Mathlib

namespace Replacement

variable {α : Type*} [DecidableEq α]

/-! ## The replacement -/

/-- `replaceFrom old new skip` replaces in what follows; the next `skip` elements belong to an
occurrence that has been replaced already. -/
def replaceFrom (old new : List α) : ℕ → List α → List α
  | _, [] => []
  | skip + 1, _ :: xs => replaceFrom old new skip xs
  | 0, x :: xs =>
    if old.isPrefixOf (x :: xs) then new ++ replaceFrom old new (old.length - 1) xs
    else x :: replaceFrom old new 0 xs

/-- Every occurrence of `old` becomes `new`. -/
def replaceAll (old new xs : List α) : List α := replaceFrom old new 0 xs

/-- An element and whether a replacement cut the list right before it. -/
abbrev Marked (α : Type*) := List (α × Bool)

def plain (xs : Marked α) : List α := xs.map Prod.fst

/-- A list that nothing has cut yet. -/
def uncut (xs : List α) : Marked α := xs.map fun x => (x, false)

/-- The inserted word: a cut before it, none inside. -/
def inserted : List α → Marked α
  | [] => []
  | x :: xs => (x, true) :: uncut xs

/-- `replaceFrom` on marked elements; `cut` says that an occurrence has just been replaced. -/
def replaceMarked (old new : List α) : Bool → ℕ → Marked α → Marked α
  | _, _, [] => []
  | cut, skip + 1, _ :: xs => replaceMarked old new cut skip xs
  | cut, 0, x :: xs =>
    if old.isPrefixOf (plain (x :: xs)) then
      inserted new ++ replaceMarked old new true (old.length - 1) xs
    else (x.1, x.2 || cut) :: replaceMarked old new false 0 xs

/-- No cut inside the word: none before any element but the first. -/
def Unbroken (w : Marked α) : Prop := ∀ x ∈ w.tail, x.2 = false

instance (w : Marked α) : Decidable (Unbroken w) :=
  inferInstanceAs (Decidable (∀ x ∈ w.tail, x.2 = false))

omit [DecidableEq α] in
@[simp] theorem plain_nil : plain ([] : Marked α) = [] := rfl

omit [DecidableEq α] in
@[simp] theorem plain_cons (x : α × Bool) (xs : Marked α) :
    plain (x :: xs) = x.1 :: plain xs := rfl

omit [DecidableEq α] in
@[simp] theorem plain_append (xs ys : Marked α) :
    plain (xs ++ ys) = plain xs ++ plain ys := List.map_append

omit [DecidableEq α] in
@[simp] theorem plain_uncut (xs : List α) : plain (uncut xs) = xs := by
  simp [uncut, plain, Function.comp_def]

omit [DecidableEq α] in
@[simp] theorem plain_inserted (xs : List α) : plain (inserted xs) = xs := by
  cases xs <;> simp [inserted]

/-- The marks do not change what is replaced. -/
theorem plain_replaceMarked (old new : List α) (cut : Bool) (skip : ℕ) (xs : Marked α) :
    plain (replaceMarked old new cut skip xs) = replaceFrom old new skip (plain xs) := by
  fun_induction replaceMarked old new cut skip xs with
  | case1 cut skip => cases skip <;> rfl
  | case2 cut skip x xs ih => rw [ih]; rfl
  | case3 cut x xs h ih =>
    rw [plain_append, plain_inserted, ih, plain_cons, replaceFrom, ← plain_cons, if_pos h]
  | case4 cut x xs h ih => rw [plain_cons, ih, plain_cons, replaceFrom, ← plain_cons, if_neg h]

/-! ## Words that no cut breaks -/

/-- What follows a replaced occurrence starts with a cut. -/
theorem head_replaceMarked_cut (old new : List α) (skip : ℕ) (xs : Marked α) :
    ∀ x ∈ (replaceMarked old new true skip xs).head?, x.2 = true := by
  induction xs generalizing skip with
  | nil => simp [replaceMarked]
  | cons _ _ ih =>
    cases skip with
    | succ skip => exact ih skip
    | zero =>
      rw [replaceMarked]
      split
      · cases new with
        | nil => simpa only [inserted, List.nil_append] using ih (old.length - 1)
        | cons => simp [inserted]
      · simp

/-- An uncut beginning of the result is a beginning of the list: nothing was replaced in it. -/
theorem prefix_of_uncut_prefix (old new : List α) (xs : Marked α) :
    ∀ w, w <+: replaceMarked old new false 0 xs → (∀ x ∈ w, x.2 = false) → w <+: xs := by
  induction xs with
  | nil =>
    intro w hw _
    simpa only [replaceMarked] using hw
  | cons x xs ih =>
    intro w hw hcut
    cases w with
    | nil => exact List.nil_prefix
    | cons y w =>
      rw [replaceMarked] at hw
      have hy : y.2 = false := hcut y List.mem_cons_self
      split at hw
      · -- a replaced occurrence leaves a cut before whatever comes next
        have hhead : ∀ z ∈ (inserted new ++
            replaceMarked old new true (old.length - 1) xs).head?, z.2 = true := by
          cases new with
          | nil => exact head_replaceMarked_cut old [] (old.length - 1) xs
          | cons => simp [inserted]
        obtain ⟨rest, hrest⟩ := hw
        have : y.2 = true := hhead y (by rw [← hrest]; rfl)
        rw [hy] at this
        exact absurd this (by decide)
      · rw [List.cons_prefix_cons] at hw
        obtain ⟨rfl, hw⟩ := hw
        have hx : x.2 = false := by simpa using hy
        have hwxs := ih w hw fun z hz => hcut z (List.mem_cons_of_mem _ hz)
        rw [List.cons_prefix_cons]
        exact ⟨Prod.ext rfl (by rw [hx]; rfl), hwxs⟩

/-- **Where an unbroken word comes from**: it stood in the list, and is not `old`, or it lies in
the inserted word. -/
theorem unbroken_infix_replaceMarked (old new : List α) (cut : Bool) (skip : ℕ) (xs : Marked α) :
    ∀ w, w <:+: replaceMarked old new cut skip xs → w ≠ [] → Unbroken w →
      (∃ v, v <:+: xs ∧ plain v = plain w ∧ Unbroken v ∧ plain w ≠ old) ∨ plain w <:+: new := by
  fun_induction replaceMarked old new cut skip xs with
  | case1 =>
    intro w hw hne _
    exact absurd (List.infix_nil.mp hw) hne
  | case2 cut skip x xs ih =>
    intro w hw hne hun
    refine (ih w hw hne hun).imp_left ?_
    rintro ⟨v, hv, rest⟩
    exact ⟨v, hv.trans (List.suffix_cons x xs).isInfix, rest⟩
  | case3 cut x xs h ih =>
    intro w hw hne hun
    rcases List.infix_append_iff.mp hw with hin | hout | ⟨a, b, rfl, ha, hb⟩
    · refine .inr ?_
      have := hin.map Prod.fst
      rwa [← plain, ← plain, plain_inserted] at this
    · refine (ih w hout hne hun).imp_left ?_
      rintro ⟨v, hv, rest⟩
      exact ⟨v, hv.trans (List.suffix_cons x xs).isInfix, rest⟩
    · -- the word would reach over the cut behind the inserted word
      cases a with
      | nil =>
        refine (ih b hb.isInfix (by simpa using hne) (by simpa using hun)).imp_left ?_
        rintro ⟨v, hv, rest⟩
        exact ⟨v, hv.trans (List.suffix_cons x xs).isInfix, rest⟩
      | cons y a =>
        cases b with
        | nil =>
          refine .inr ?_
          have := ha.isInfix.map Prod.fst
          rwa [← plain, ← plain, plain_inserted, ← List.append_nil (y :: a)] at this
        | cons z =>
          obtain ⟨rest, hrest⟩ := hb
          have hz : z.2 = true := head_replaceMarked_cut old new (old.length - 1) xs z
            (by rw [← hrest]; rfl)
          have := hun z (by simp)
          rw [hz] at this
          exact absurd this (by decide)
  | case4 cut x xs h ih =>
    intro w hw hne hun
    rcases List.infix_cons_iff.mp hw with hpre | hin
    · cases w with
      | nil => exact absurd rfl hne
      | cons _ w =>
        rw [List.cons_prefix_cons] at hpre
        obtain ⟨rfl, hpre⟩ := hpre
        have hprefix := prefix_of_uncut_prefix old new xs w hpre hun
        refine .inl ⟨x :: w, (List.cons_prefix_cons.mpr ⟨rfl, hprefix⟩).isInfix, rfl, hun, ?_⟩
        -- the test failed at `x`, so no occurrence of `old` starts here
        rintro hold
        refine h ?_
        rw [List.isPrefixOf_iff_prefix, ← hold]
        exact (List.cons_prefix_cons.mpr ⟨rfl, hprefix⟩).map Prod.fst
    · refine (ih w hin hne hun).imp_left ?_
      rintro ⟨v, hv, rest⟩
      exact ⟨v, hv.trans (List.suffix_cons x xs).isInfix, rest⟩

/-! ## Replacing one pattern after the other -/

/-- No unbroken word spells `u`. -/
def Clean (u : List α) (xs : Marked α) : Prop := ∀ w, w <:+: xs → Unbroken w → plain w ≠ u

def replaceEach (new : List α) (patterns : List (List α)) (xs : List α) : List α :=
  patterns.foldl (fun ys old => replaceAll old new ys) xs

/-- `replaceEach` on marked elements. -/
def replaceEachMarked (new : List α) (patterns : List (List α)) (xs : Marked α) : Marked α :=
  patterns.foldl (fun ys old => replaceMarked old new false 0 ys) xs

theorem plain_replaceEachMarked (new : List α) (patterns : List (List α)) (xs : Marked α) :
    plain (replaceEachMarked new patterns xs) = replaceEach new patterns (plain xs) := by
  induction patterns generalizing xs with
  | nil => rfl
  | cons _ _ ih =>
    rw [replaceEachMarked, List.foldl_cons, ← replaceEachMarked, ih, plain_replaceMarked]
    rfl

/-- A replacement keeps a pattern from being spelled without a cut. -/
theorem Clean.replaceMarked {u old new : List α} {xs : Marked α} (h : Clean u xs) (hu : u ≠ [])
    (hnew : ¬ u <:+: new) : Clean u (replaceMarked old new false 0 xs) := by
  rintro w hw hun rfl
  have hne : w ≠ [] := by
    rintro rfl
    exact hu rfl
  rcases unbroken_infix_replaceMarked old new false 0 xs w hw hne hun with ⟨v, hv, heq, hvun, -⟩ | hin
  · exact h v hv hvun heq
  · exact hnew hin

theorem clean_replaceMarked {old new : List α} (hold : old ≠ []) (hnew : ¬ old <:+: new)
    (xs : Marked α) : Clean old (replaceMarked old new false 0 xs) := by
  rintro w hw hun rfl
  have hne : w ≠ [] := by
    rintro rfl
    exact hold rfl
  rcases unbroken_infix_replaceMarked _ new false 0 xs w hw hne hun with ⟨v, -, -, -, hv⟩ | hin
  · exact hv rfl
  · exact hnew hin

theorem clean_replaceEachMarked {new : List α} {patterns : List (List α)}
    (hne : ∀ p ∈ patterns, p ≠ []) (hnew : ∀ p ∈ patterns, ¬ p <:+: new) :
    ∀ (xs : Marked α) {u : List α}, u ≠ [] → ¬ u <:+: new → u ∈ patterns ∨ Clean u xs →
      Clean u (replaceEachMarked new patterns xs) := by
  induction patterns with
  | nil =>
    intro xs u _ _ h
    exact h.resolve_left List.not_mem_nil
  | cons _ _ ih =>
    intro xs u hu hun h
    rw [replaceEachMarked, List.foldl_cons, ← replaceEachMarked]
    refine ih (fun p hp => hne p (List.mem_cons_of_mem _ hp))
      (fun p hp => hnew p (List.mem_cons_of_mem _ hp)) _ hu hun ?_
    rcases h with hmem | hclean
    · rcases List.mem_cons.mp hmem with rfl | hmem
      · exact .inr (clean_replaceMarked hu hun xs)
      · exact .inl hmem
    · exact .inr (hclean.replaceMarked hu hun)

def SpelledOverCut (u : List α) (xs : Marked α) : Prop :=
  ∃ w, w <:+: xs ∧ ¬ Unbroken w ∧ plain w = u

/-- **A pattern survives exactly where it is spelled over a cut.** -/
theorem infix_replaceEach_iff {new : List α} {patterns : List (List α)}
    (hne : ∀ p ∈ patterns, p ≠ []) (hnew : ∀ p ∈ patterns, ¬ p <:+: new) (xs : List α)
    {u : List α} (hu : u ∈ patterns) :
    u <:+: replaceEach new patterns xs ↔
      SpelledOverCut u (replaceEachMarked new patterns (uncut xs)) := by
  have hplain : replaceEach new patterns xs =
      plain (replaceEachMarked new patterns (uncut xs)) := by
    rw [plain_replaceEachMarked, plain_uncut]
  have hclean := clean_replaceEachMarked hne hnew (uncut xs) (hne u hu) (hnew u hu) (.inl hu)
  rw [hplain]
  constructor
  · intro h
    obtain ⟨w, hw, rfl⟩ := List.infix_map_iff.mp h
    exact ⟨w, hw, fun hun => hclean w hw hun rfl, rfl⟩
  · rintro ⟨w, hw, -, rfl⟩
    exact hw.map Prod.fst

end Replacement
