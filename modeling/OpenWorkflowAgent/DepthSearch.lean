/-
# Bounded depth-first search

A search through a directed graph that measures how far each node reaches.  `visit` keeps the
nodes it came through on a stack and the heights it knows in a table.  It refuses a node that is
on its stack, a stack that is full, and a height over the bound; the stack is looked at before the
table.  The order in which the successors of a node are listed is the caller's.

The search is exact.  A walk is a list of nodes along the edges, and the height of a node is the
number of nodes of the longest walk from it:

* `visit_ends`: a search that answers gives the height, and one that raises has met a cycle or a
  walk over the bound;
* `visitAll_refuses_iff`: a search from all nodes of a graph raises exactly when the graph has a
  cycle or a walk without repetitions over the bound.
-/
import OpenWorkflowAgent.Transactions
import OpenWorkflowAgent.Tables

open Transaction

namespace DepthSearch

variable {α ε : Type}

/-! ## Walks and heights -/

/-- A walk along the edges from a node: `rest` is what comes after the node. -/
def Walk (edge : α → α → Prop) (a : α) (rest : List α) : Prop := (a :: rest).IsChain edge

/-- The longest walk from a node has `height` nodes. -/
structure IsHeight (edge : α → α → Prop) (a : α) (height : ℕ) : Prop where
  attained : ∃ rest, Walk edge a rest ∧ rest.length + 1 = height
  bounded : ∀ rest, Walk edge a rest → rest.length + 1 ≤ height

/-- A graph with a cycle, or with a walk without repetitions over the bound. -/
def Deep (limit : ℕ) (edge : α → α → Prop) : Prop :=
  (∃ a, Relation.TransGen edge a a) ∨ ∃ l : List α, l.IsChain edge ∧ l.Nodup ∧ limit < l.length

variable {edge : α → α → Prop}

theorem walk_nil (a : α) : Walk edge a [] := List.isChain_singleton a

theorem walk_cons_iff {a b : α} {rest : List α} :
    Walk edge a (b :: rest) ↔ edge a b ∧ Walk edge b rest := List.isChain_cons_cons

/-- The height of a node is one more than the greatest height of its successors. -/
theorem IsHeight.of_successors {a : α} {deepest : ℕ}
    (hsome : deepest = 0 ∨ ∃ b, edge a b ∧ IsHeight edge b deepest)
    (hall : ∀ b, edge a b → ∃ h, IsHeight edge b h ∧ h ≤ deepest) :
    IsHeight edge a (deepest + 1) where
  attained := by
    rcases hsome with rfl | ⟨b, hb, hheight⟩
    · exact ⟨[], walk_nil a, rfl⟩
    · obtain ⟨rest, hwalk, hlength⟩ := hheight.attained
      exact ⟨b :: rest, walk_cons_iff.mpr ⟨hb, hwalk⟩, by simpa using hlength⟩
  bounded := by
    intro rest hwalk
    cases rest with
    | nil => simp
    | cons b rest =>
      obtain ⟨hb, hrest⟩ := walk_cons_iff.mp hwalk
      obtain ⟨h, hheight, hle⟩ := hall b hb
      have hbounded := hheight.bounded rest hrest
      simp only [List.length_cons]
      omega

/-- From a node on a cycle there are walks of any length. -/
theorem walks_of_cycle {a : α} (h : Relation.TransGen edge a a) (n : ℕ) :
    ∃ rest, Walk edge a rest ∧ n ≤ rest.length := by
  -- going round once puts a walk back to `a` in front of any walk from `a`
  have hround : ∀ b, Relation.TransGen edge b a → ∀ rest, Walk edge a rest →
      ∃ longer, Walk edge b longer ∧ rest.length < longer.length := by
    intro b hb
    induction hb using Relation.TransGen.head_induction_on with
    | single hstep =>
      intro rest hrest
      exact ⟨a :: rest, walk_cons_iff.mpr ⟨hstep, hrest⟩, by simp⟩
    | head hstep _ ih =>
      intro rest hrest
      obtain ⟨longer, hwalk, hlength⟩ := ih rest hrest
      exact ⟨_ :: longer, walk_cons_iff.mpr ⟨hstep, hwalk⟩, by simp; omega⟩
  induction n with
  | zero => exact ⟨[], walk_nil a, Nat.le_refl 0⟩
  | succ n ih =>
    obtain ⟨rest, hwalk, hlength⟩ := ih
    obtain ⟨longer, hlonger, hlt⟩ := hround a h rest hwalk
    exact ⟨longer, hlonger, by omega⟩

/-- In a walk each node leads to all that come after it. -/
theorem pairwise_of_isChain {l : List α} (hchain : l.IsChain edge) :
    l.Pairwise (Relation.TransGen edge) :=
  List.isChain_iff_pairwise.mp (hchain.imp fun _ _ hxy => Relation.TransGen.single hxy)

/-- A walk that meets a node twice goes round a cycle. -/
theorem cycle_of_not_nodup {l : List α} (hchain : l.IsChain edge) (hdup : ¬ l.Nodup) :
    ∃ a, Relation.TransGen edge a a := by
  induction l with
  | nil => exact absurd List.nodup_nil hdup
  | cons a l ih =>
    by_cases hmem : a ∈ l
    · -- the later occurrence of the head is reached from the head
      exact ⟨a, (List.pairwise_cons.mp (pairwise_of_isChain hchain)).1 a hmem⟩
    · exact ih hchain.tail fun hnodup => hdup (List.nodup_cons.mpr ⟨hmem, hnodup⟩)

/-- A walk that ends at a node that it went through. -/
theorem cycle_of_mem_stack {stack : List α} {a : α} (hchain : (stack ++ [a]).IsChain edge)
    (hmem : a ∈ stack) : Relation.TransGen edge a a :=
  (List.pairwise_append.mp (pairwise_of_isChain hchain)).2.2 a hmem a List.mem_cons_self

/-- A walk over the bound makes a graph deep, with or without repetitions. -/
theorem deep_of_isChain {limit : ℕ} {l : List α} (hchain : l.IsChain edge)
    (hlong : limit < l.length) : Deep limit edge := by
  by_cases hnodup : l.Nodup
  · exact Or.inr ⟨l, hchain, hnodup, hlong⟩
  · exact Or.inl (cycle_of_not_nodup hchain hnodup)

/-! ## The search -/

section Search

variable [DecidableEq α] {next : α → List α}

/-- The edges that a list of successors describes. -/
def Edge (next : α → List α) (x y : α) : Prop := y ∈ next x

/-- The greatest of the heights of some nodes. -/
def visitEach (visit : α → Transaction ε (Table α ℕ) ℕ) : List α → Transaction ε (Table α ℕ) ℕ
  | [] => pure 0
  | a :: rest => do
      let height ← visit a
      let others ← visitEach visit rest
      return max height others

/-- The height of a node that is not in the table. -/
def measure (limit : ℕ) (next : α → List α) (onDeep : α → ε)
    (visit : α → Transaction ε (Table α ℕ) ℕ) (a : α) : Transaction ε (Table α ℕ) ℕ := do
  let deepest ← visitEach visit (next a)
  raiseIf (limit < deepest + 1) (onDeep a)
  write fun heights => heights.put a (deepest + 1)
  return deepest + 1

/-- The height of a node from the table, or else measured. -/
def lookUp (known : Option ℕ) (measured : Transaction ε (Table α ℕ) ℕ) :
    Transaction ε (Table α ℕ) ℕ :=
  match known with
  | some height => pure height
  | none => measured

/-- The search from a node; `remaining` is how many nodes the stack still takes. -/
def visit (limit : ℕ) (next : α → List α) (onCycle onDeep : α → ε) :
    ℕ → List α → α → Transaction ε (Table α ℕ) ℕ
  | 0, stack, a => do
      raiseIf (a ∈ stack) (onCycle a)
      throw (onDeep a)
  | remaining + 1, stack, a => do
      raiseIf (a ∈ stack) (onCycle a)
      let known ← read fun heights => heights.lookup a
      lookUp known
        (measure limit next onDeep (visit limit next onCycle onDeep remaining (stack ++ [a])) a)

/-- The search from some nodes, one after the other, with an empty stack. -/
def visitAll (limit : ℕ) (next : α → List α) (onCycle onDeep : α → ε) :
    List α → Transaction ε (Table α ℕ) Unit
  | [] => pure ()
  | a :: rest => do
      let _ ← visit limit next onCycle onDeep limit [] a
      visitAll limit next onCycle onDeep rest

/-! ## The search is exact -/

/-- The table knows heights within the bound only. -/
def Exact (limit : ℕ) (next : α → List α) (heights : Table α ℕ) : Prop :=
  ∀ a h, heights.lookup a = some h → IsHeight (Edge next) a h ∧ h ≤ limit

/-- What an error of the search says about the graph. -/
inductive Refuses (limit : ℕ) (next : α → List α) (onCycle onDeep : α → ε) : ε → Prop where
  | cycle (a : α) (h : Relation.TransGen (Edge next) a a) : Refuses limit next onCycle onDeep (onCycle a)
  | deep (a b : α) (rest : List α) (hwalk : Walk (Edge next) b rest) (hlong : limit < rest.length + 1) :
      Refuses limit next onCycle onDeep (onDeep a)

/-- What an answer of the search says about a node. -/
def Answers (limit : ℕ) (next : α → List α) (a : α) (h : ℕ) (heights : Table α ℕ) : Prop :=
  IsHeight (Edge next) a h ∧ h ≤ limit ∧ Exact limit next heights

variable {limit : ℕ} {onCycle onDeep : α → ε}

variable {nodes : List α} {heights : Table α ℕ}

/-- The heights of some nodes have a greatest one. -/
theorem visitEach_ends {E : ε → Prop} {visit : α → Transaction ε (Table α ℕ) ℕ}
    (hvisit : ∀ a ∈ nodes, ∀ heights, Exact limit next heights →
      Ends (visit a) heights (Answers limit next a) E) (hexact : Exact limit next heights) :
    Ends (visitEach visit nodes) heights (fun deepest heights' =>
      (deepest = 0 ∨ ∃ b ∈ nodes, IsHeight (Edge next) b deepest) ∧
      (∀ b ∈ nodes, ∃ h, IsHeight (Edge next) b h ∧ h ≤ deepest) ∧ Exact limit next heights') E := by
  induction nodes generalizing heights with
  | nil => exact ends_pure ⟨Or.inl rfl, by simp, hexact⟩
  | cons a nodes ih =>
    refine (hvisit a List.mem_cons_self heights hexact).bind fun height heights₁ hanswer => ?_
    obtain ⟨hheight, -, hexact₁⟩ := hanswer
    refine (ih (fun b hb => hvisit b (List.mem_cons_of_mem _ hb)) hexact₁).bind
      fun others heights₂ hrest => ends_pure ?_
    obtain ⟨hsome, hall, hexact₂⟩ := hrest
    refine ⟨Or.inr ?_, ?_, hexact₂⟩
    · rcases Nat.le_total others height with hle | hle
      · rw [max_eq_left hle]
        exact ⟨a, List.mem_cons_self, hheight⟩
      · rw [max_eq_right hle]
        rcases hsome with hzero | ⟨b, hb, hdeepest⟩
        · -- a height is positive, so the first one is the greatest after all
          have hpos : height = others := by omega
          exact ⟨a, List.mem_cons_self, hpos ▸ hheight⟩
        · exact ⟨b, List.mem_cons_of_mem _ hb, hdeepest⟩
    · intro b hb
      rcases List.mem_cons.mp hb with rfl | hb
      · exact ⟨height, hheight, le_max_left _ _⟩
      · obtain ⟨h, hb', hle⟩ := hall b hb
        exact ⟨h, hb', hle.trans (le_max_right _ _)⟩

theorem Exact.put (h : Exact limit next heights) {a : α} {height : ℕ}
    (ha : IsHeight (Edge next) a height) (hle : height ≤ limit) :
    Exact limit next (heights.put a height) := by
  intro b h' hlookup
  rw [Table.lookup_put] at hlookup
  split at hlookup
  · rename_i hba
    cases hlookup
    rw [hba]
    exact ⟨ha, hle⟩
  · exact h b h' hlookup

/-- A node whose successors are searched well is measured well. -/
theorem measure_ends {visit : α → Transaction ε (Table α ℕ) ℕ} {a : α}
    (hvisit : ∀ b ∈ next a, ∀ heights, Exact limit next heights →
      Ends (visit b) heights (Answers limit next b) (Refuses limit next onCycle onDeep))
    (hexact : Exact limit next heights) :
    Ends (measure limit next onDeep visit a) heights (Answers limit next a)
      (Refuses limit next onCycle onDeep) := by
  refine (visitEach_ends hvisit hexact).bind fun deepest heights₁ hfound => ?_
  obtain ⟨hsome, hall, hexact₁⟩ := hfound
  have hheight : IsHeight (Edge next) a (deepest + 1) := IsHeight.of_successors hsome hall
  refine Ends.bind (ends_raiseIf (fun hlong => ?_) fun hshort => ⟨Nat.le_of_not_lt hshort, rfl⟩)
    (P := fun _ heights₂ => deepest + 1 ≤ limit ∧ heights₂ = heights₁) fun _ heights₂ hgo => ?_
  · obtain ⟨rest, hwalk, hlength⟩ := hheight.attained
    exact Refuses.deep a a rest hwalk (by omega)
  · obtain ⟨hle, rfl⟩ := hgo
    exact Ends.bind (ends_write rfl) (P := fun _ heights₃ => heights₃ = heights₂.put a (deepest + 1))
      fun _ heights₃ hput => ends_pure ⟨hheight, hle, hput ▸ hexact₁.put hheight hle⟩

/-- **The search is exact.**  The stack is a walk to the node, and there is room on it for as many
nodes as the bound still allows. -/
theorem visit_ends {remaining : ℕ} {stack : List α} {a : α} (hexact : Exact limit next heights)
    (hchain : (stack ++ [a]).IsChain (Edge next)) (hroom : stack.length + remaining = limit) :
    Ends (visit limit next onCycle onDeep remaining stack a) heights (Answers limit next a)
      (Refuses limit next onCycle onDeep) := by
  induction remaining generalizing stack a heights with
  | zero =>
    refine Ends.bind (ends_raiseIf (fun hmem => ?_) fun _ => trivial)
      (P := fun _ _ => True) fun _ _ _ => ends_throw ?_
    · exact Refuses.cycle a (cycle_of_mem_stack hchain hmem)
    · -- the stack is full, so with this node the walk is over the bound
      obtain ⟨b, rest, hstack⟩ : ∃ b rest, stack ++ [a] = b :: rest := by
        cases stack with
        | nil => exact ⟨a, [], rfl⟩
        | cons b stack => exact ⟨b, stack ++ [a], rfl⟩
      have hlength := congrArg List.length hstack
      simp only [List.length_append, List.length_cons, List.length_nil] at hlength
      rw [hstack] at hchain
      exact Refuses.deep a b rest hchain (by omega)
  | succ remaining ih =>
    refine Ends.bind (ends_raiseIf (fun hmem => ?_) fun _ => rfl)
      (P := fun _ heights₁ => heights₁ = heights) fun _ heights₁ hsame => ?_
    · exact Refuses.cycle a (cycle_of_mem_stack hchain hmem)
    · rw [hsame]
      refine Ends.bind (ends_read ⟨rfl, rfl⟩)
        (P := fun known heights₂ => known = heights.lookup a ∧ heights₂ = heights)
        fun known heights₂ hknown => ?_
      obtain ⟨hknown, hsame₂⟩ := hknown
      rw [hsame₂]
      cases known with
      | some height =>
        obtain ⟨hheight, hle⟩ := hexact a height hknown.symm
        exact ends_pure ⟨hheight, hle, hexact⟩
      | none =>
        refine measure_ends (fun b hb heights₃ hexact₃ => ih hexact₃ ?_ ?_) hexact
        · refine hchain.append (List.isChain_singleton b) ?_
          have hedge : Edge next a b := hb
          simp [hedge]
        · simp only [List.length_append, List.length_cons, List.length_nil]
          omega

theorem visitAll_ends (hexact : Exact limit next heights) :
    Ends (visitAll limit next onCycle onDeep nodes) heights
      (fun _ _ => ∀ a ∈ nodes, ∃ h, IsHeight (Edge next) a h ∧ h ≤ limit)
      (Refuses limit next onCycle onDeep) := by
  induction nodes generalizing heights with
  | nil => exact ends_pure (by simp)
  | cons a nodes ih =>
    refine (visit_ends hexact (List.isChain_singleton a) (by simp)).bind
      fun h heights₁ hanswer => ?_
    obtain ⟨hheight, hle, hexact₁⟩ := hanswer
    have hrest := ih hexact₁
    unfold Ends at hrest ⊢
    cases hrun : (visitAll limit next onCycle onDeep nodes).run heights₁ with
    | error e =>
      rw [hrun] at hrest
      exact hrest
    | ok r =>
      rw [hrun] at hrest
      intro b hb
      rcases List.mem_cons.mp hb with rfl | hb
      · exact ⟨h, hheight, hle⟩
      · exact hrest b hb

/-- A search from all nodes that have successors refuses exactly the graphs with a cycle or a walk
over the bound. -/
theorem visitAll_refuses_iff (hlimit : 0 < limit) (hnodes : ∀ a, next a ≠ [] → a ∈ nodes) :
    (∃ e, (visitAll limit next onCycle onDeep nodes).run ∅ = .error e) ↔
      Deep limit (Edge next) := by
  have hends : Ends (visitAll limit next onCycle onDeep nodes) ∅ _ _ :=
    visitAll_ends fun a h hlookup => by cases hlookup
  constructor
  · rintro ⟨e, hrun⟩
    cases hends.of_error hrun with
    | cycle a h => exact Or.inl ⟨a, h⟩
    | deep a b rest hwalk hlong => exact deep_of_isChain hwalk hlong
  · intro hdeep
    -- some node of the search has a walk over the bound
    obtain ⟨a, b, rest, hwalk, hlong⟩ : ∃ a b rest, Walk (Edge next) a (b :: rest) ∧
        limit < rest.length + 2 := by
      rcases hdeep with ⟨a, hcycle⟩ | ⟨l, hchain, -, hlong⟩
      · obtain ⟨rest, hwalk, hlength⟩ := walks_of_cycle hcycle (limit + 1)
        cases rest with
        | nil => simp at hlength
        | cons b rest => exact ⟨a, b, rest, hwalk, by simp at hlength; omega⟩
      · match l, hchain, hlong with
        | [], _, hlong => simp at hlong
        | [_], _, hlong => simp at hlong; omega
        | a :: b :: rest, hchain, hlong => exact ⟨a, b, rest, hchain, hlong⟩
    have hb := (walk_cons_iff.mp hwalk).1
    cases hrun : (visitAll limit next onCycle onDeep nodes).run ∅ with
    | error e => exact ⟨e, rfl⟩
    | ok r =>
      obtain ⟨h, hheight, hle⟩ := hends.of_ok hrun a (hnodes a (List.ne_nil_of_mem hb))
      have hbounded := hheight.bounded (b :: rest) hwalk
      simp only [List.length_cons] at hbounded
      omega

end Search

end DepthSearch
