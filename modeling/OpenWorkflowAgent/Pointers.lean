/-
# JSON pointers

A pointer is the list of its unescaped tokens; its text has a `/` before each token, with
`~` and `/` escaped inside.  Escaping is a prefix code and leaves no `/`, so a text is the
text of one pointer only, and tests on texts are tests on tokens:

* `Pointer.text_injective`: pointers with the same text are the same;
* `Pointer.chars_slash_prefix_iff`: a text starts with another one and a `/` exactly when the
  pointer goes on from the other one;
* `Pointer.slash_suffix_chars_iff`: a text ends with `/` and a plain token exactly when that
  token is the last one.
-/
import Mathlib

/-- A JSON pointer, as the list of its unescaped tokens. -/
abbrev Pointer := List String

namespace Pointer

/-- `~` and `/` are escaped. -/
def escapeChar (c : Char) : List Char :=
  if c = '~' then ['~', '0'] else if c = '/' then ['~', '1'] else [c]

def token (name : String) : List Char := name.toList.flatMap escapeChar

def chars (p : Pointer) : List Char := p.flatMap fun name => '/' :: token name

def text (p : Pointer) : String := String.ofList (chars p)

/-! ## Separated texts -/

/-- Nothing, or something that starts with the separator. -/
def Headed (sep : Char) (x : List Char) : Prop := x = [] ∨ ∃ rest, x = sep :: rest

/-- Two texts without the separator, each before something that starts with it, end at the first
separator. -/
theorem append_headed_inj {sep : Char} {a b x y : List Char} (ha : sep ∉ a) (hb : sep ∉ b)
    (hx : Headed sep x) (hy : Headed sep y) (h : a ++ x = b ++ y) : a = b ∧ x = y := by
  induction a generalizing b with
  | nil =>
    cases b with
    | nil => exact ⟨rfl, h⟩
    | cons d =>
      -- then `x` would start with `d`, which is not the separator
      rcases hx with rfl | ⟨rest, rfl⟩
      · simp at h
      · simp only [List.nil_append, List.cons_append, List.cons.injEq] at h
        exact absurd (List.mem_cons.mpr (Or.inl h.1)) hb
  | cons _ _ ih =>
    cases b with
    | nil =>
      rcases hy with rfl | ⟨rest, rfl⟩
      · simp at h
      · simp only [List.nil_append, List.cons_append, List.cons.injEq] at h
        exact absurd (List.mem_cons.mpr (Or.inl h.1.symm)) ha
    | cons =>
      simp only [List.cons_append, List.cons.injEq] at h
      obtain ⟨hrest, hxy⟩ := ih (fun hc => ha (List.mem_cons_of_mem _ hc))
        (fun hd => hb (List.mem_cons_of_mem _ hd)) h.2
      exact ⟨by rw [h.1, hrest], hxy⟩

/-! ## Tokens -/

theorem slash_notMem_escapeChar (c : Char) : '/' ∉ escapeChar c := by
  unfold escapeChar
  split
  · decide
  · split
    · decide
    · rename_i hslash
      simpa using Ne.symm hslash

theorem slash_notMem_token (name : String) : '/' ∉ token name := by
  unfold token
  rw [List.mem_flatMap]
  rintro ⟨c, -, hc⟩
  exact slash_notMem_escapeChar c hc

/-- What one character is escaped to, and what follows, can be read back. -/
theorem escapeChar_append_inj {c d : Char} {x y : List Char}
    (h : escapeChar c ++ x = escapeChar d ++ y) : c = d ∧ x = y := by
  unfold escapeChar at h
  split_ifs at h <;> simp only [List.cons_append, List.nil_append, List.cons.injEq] at h <;> grind

theorem escapeChar_ne_nil (c : Char) : escapeChar c ≠ [] := by
  unfold escapeChar
  split_ifs <;> simp

theorem flatMap_escapeChar_injective :
    Function.Injective (List.flatMap escapeChar : List Char → List Char) := by
  intro a
  induction a with
  | nil =>
    intro b h
    cases b with
    | nil => rfl
    | cons d =>
      have hnil := List.append_eq_nil_iff.mp h.symm
      exact absurd hnil.1 (escapeChar_ne_nil d)
  | cons c _ ih =>
    intro b h
    cases b with
    | nil =>
      have hnil := List.append_eq_nil_iff.mp h
      exact absurd hnil.1 (escapeChar_ne_nil c)
    | cons =>
      simp only [List.flatMap_cons] at h
      obtain ⟨rfl, hrest⟩ := escapeChar_append_inj h
      rw [ih hrest]

theorem token_injective : Function.Injective token := fun _ _ h =>
  String.toList_injective (flatMap_escapeChar_injective h)

/-! ## Texts -/

@[simp] theorem chars_nil : chars [] = [] := rfl

@[simp] theorem chars_cons (name : String) (p : Pointer) :
    chars (name :: p) = '/' :: (token name ++ chars p) := rfl

theorem chars_append (p q : Pointer) : chars (p ++ q) = chars p ++ chars q :=
  List.flatMap_append

theorem headed_chars (p : Pointer) : Headed '/' (chars p) := by
  cases p with
  | nil => exact Or.inl rfl
  | cons => exact Or.inr ⟨_, rfl⟩

/-- A text that starts with the text of a pointer and a slash. -/
theorem exists_of_chars_append {p q : Pointer} {x : List Char} (hx : Headed '/' x)
    (h : chars q = chars p ++ x) : ∃ rest : Pointer, q = p ++ rest ∧ chars rest = x := by
  induction p generalizing q with
  | nil => exact ⟨q, rfl, h⟩
  | cons name p ih =>
    cases q with
    | nil => simp at h
    | cons other q =>
      have hheaded : Headed '/' (chars p ++ x) := by
        rcases headed_chars p with hp | ⟨rest, hp⟩
        · rw [hp]
          exact hx
        · exact Or.inr ⟨rest ++ x, by rw [hp]; rfl⟩
      simp only [chars_cons, List.cons_append, List.cons.injEq, true_and,
        List.append_assoc] at h
      obtain ⟨htoken, hrest⟩ := append_headed_inj (slash_notMem_token other)
        (slash_notMem_token name) (headed_chars q) hheaded h
      obtain ⟨rest, hq, hchars⟩ := ih hrest
      exact ⟨rest, by rw [token_injective htoken, hq]; rfl, hchars⟩

theorem chars_injective : Function.Injective chars := by
  intro p q h
  obtain ⟨rest, hq, hrest⟩ := exists_of_chars_append (Or.inl rfl) (h.symm.trans (List.append_nil _).symm)
  cases rest with
  | nil => rw [hq, List.append_nil]
  | cons => simp at hrest

theorem text_injective : Function.Injective text := fun _ _ h =>
  chars_injective (String.ofList_injective h)

/-- A text starts with another one and a slash exactly when the pointer goes on. -/
theorem chars_slash_prefix_iff {p q : Pointer} :
    chars p ++ ['/'] <+: chars q ↔ ∃ name rest, q = p ++ name :: rest := by
  constructor
  · rintro ⟨x, hx⟩
    obtain ⟨rest, hq, hrest⟩ := exists_of_chars_append (p := p) (Or.inr ⟨x, rfl⟩)
      (by rw [← hx, List.append_assoc]; rfl)
    cases rest with
    | nil => simp at hrest
    | cons name rest => exact ⟨name, rest, hq⟩
  · rintro ⟨name, rest, rfl⟩
    rw [chars_append, chars_cons]
    exact ⟨token name ++ chars rest, by simp⟩

/-- A text ends with a slash and a plain token exactly when that token is the last one. -/
theorem slash_suffix_chars_iff {q : Pointer} {name : String} (hname : token name = name.toList) :
    '/' :: name.toList <:+ chars q ↔ ∃ p, q = p ++ [name] := by
  have hslash : '/' ∉ name.toList := hname ▸ slash_notMem_token name
  constructor
  · rintro ⟨x, hx⟩
    rcases List.eq_nil_or_concat q with rfl | ⟨p, last, rfl⟩
    · simp at hx
    · -- read backwards, both texts end at their first slash
      rw [List.concat_eq_append, chars_append] at hx
      have hback := congrArg List.reverse hx
      simp only [chars_cons, chars_nil, List.append_nil, List.reverse_append, List.reverse_cons,
        List.append_assoc, List.singleton_append] at hback
      obtain ⟨htoken, -⟩ := append_headed_inj (by simpa using hslash)
        (by simpa using slash_notMem_token last) (Or.inr ⟨_, rfl⟩) (Or.inr ⟨_, rfl⟩) hback
      have hlast : token last = token name := by rw [hname, List.reverse_injective htoken]
      exact ⟨p, by rw [token_injective hlast, List.concat_eq_append]⟩
  · rintro ⟨p, rfl⟩
    rw [chars_append]
    exact ⟨chars p, by simp [hname]⟩

end Pointer
