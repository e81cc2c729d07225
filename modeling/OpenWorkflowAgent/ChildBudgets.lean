/-
# The budget of a tree of children is exact

Any number of parents, at any depth of any number of trees, reserve children in any
interleaving, next to every other transaction of the invocation store.  `Books` is
what the tables always say of one another: a budget counts the bindings of its root,
a binding names a stored parent and a stored child that agree with it, and the
binding of the parent, if the parent has one, is one step closer to the same root.

From the books: every stored binding passes `verify_control`, whose walk to the root
is an induction on the depth, and a repeated reservation passes `verify`.  `Distance`
states the depth of a tree without the stored numbers.

What is relied on: a key is never the empty text (it is a SHA-256 digest), drawn
identifiers are new `uuid4` texts, and a parent's handle carries the identity that is
stored for it, which never changes.
-/
import OpenWorkflowAgent.Children

open Transaction Invocations

namespace Children

/-! ## The invocation store -/

def identityOf (id : String) (r : RuntimeStore) : Option InvocationIdentity :=
  (r.invocations.lookup id).map fun row => row.payload.record.identity

/-- Every stored record can be read. -/
def Readable (r : RuntimeStore) : Prop :=
  ∀ id row, r.invocations.lookup id = some row → validRecord row.payload.record = true ∧
    isUuidHex row.payload.revision = true ∧ row.payload.invocationId = id ∧
    row.payload.record.status = row.status

/-- Identities and inputs are there to stay. -/
structure Grows (r r' : RuntimeStore) : Prop where
  identity : ∀ id i, identityOf id r = some i → identityOf id r' = some i
  inputs : ∀ id row, r.inputs.lookup id = some row → r'.inputs.lookup id = some row

theorem Grows.refl (r : RuntimeStore) : Grows r r := ⟨fun _ _ h => h, fun _ _ h => h⟩

theorem Grows.trans {r₁ r₂ r₃ : RuntimeStore} (h₁ : Grows r₁ r₂) (h₂ : Grows r₂ r₃) :
    Grows r₁ r₃ :=
  ⟨fun id i h => h₂.identity id i (h₁.identity id i h),
    fun id row h => h₂.inputs id row (h₁.inputs id row h)⟩

/-- A committed transaction of the invocation store, with a new revision for every snapshot
it writes and no input changed. -/
structure RuntimeStep (sha256 : Snapshot → String) (r r' : RuntimeStore) : Prop where
  commits : Commits sha256 r r'
  revisions : ∀ id row, r'.invocations.lookup id = some row →
    r.invocations.lookup id = some row ∨ isUuidHex row.payload.revision = true
  inputs : ∀ id row, r.inputs.lookup id = some row → r'.inputs.lookup id = some row

variable {id key : String} {parent c : InvocationIdentity} {child : ExecutionHandle} {r : Request}
  {b : ChildBinding}

section Runtime

variable {sha256 : Snapshot → String} {r r' : RuntimeStore}

variable {encoded : Snapshot}

theorem identityOf_put
    (h : r'.invocations = r.invocations.put encoded.invocationId ⟨encoded, encoded.record.status⟩) :
    identityOf id r' =
      if id = encoded.invocationId then some encoded.record.identity else identityOf id r := by
  unfold identityOf
  rw [h, Table.lookup_put]
  split <;> rfl

theorem Readable.put (hr : Readable r)
    (h : r'.invocations = r.invocations.put encoded.invocationId ⟨encoded, encoded.record.status⟩)
    (hvalid : validRecord encoded.record = true) (hrev : isUuidHex encoded.revision = true) :
    Readable r' := by
  intro id row hrow
  rw [h, Table.lookup_put] at hrow
  split at hrow
  · next hid =>
      cases hrow
      exact ⟨hvalid, hrev, hid.symm, rfl⟩
  · exact hr id row hrow

theorem Creates.identityOf (h : Creates encoded r r') :
    identityOf encoded.invocationId r' = some encoded.record.identity ∧
      ∀ id i, Children.identityOf id r = some i → Children.identityOf id r' = some i := by
  refine ⟨by rw [identityOf_put h.invocations, if_pos rfl], fun id i hi => ?_⟩
  rw [identityOf_put h.invocations, if_neg, hi]
  rintro rfl
  unfold Children.identityOf at hi
  rw [h.absent] at hi
  cases hi

theorem RuntimeStep.grows (h : RuntimeStep sha256 r r') : Grows r r' where
  identity id i hi := by
    cases h.commits with
    | untouched hu =>
      unfold identityOf
      rw [hu.invocations]
      exact hi
    | created _ hc => exact (Creates.identityOf hc).2 id i hi
    | overwritten _ _ _ ho =>
      rw [identityOf_put ho.invocations]
      split
      · next hid =>
          rw [hid] at hi
          unfold identityOf at hi
          rw [ho.stored, Option.map_some, Option.some.injEq] at hi
          rw [ho.identity, ← hi]
      · exact hi
  inputs := h.inputs

theorem RuntimeStep.readable (h : RuntimeStep sha256 r r') (hr : Readable r) : Readable r' := by
  -- a row that was there is readable, and a written one has a valid record and a new revision
  have hwritten : ∀ encoded : Snapshot, r'.invocations = r.invocations.put encoded.invocationId
      ⟨encoded, encoded.record.status⟩ → validRecord encoded.record = true → Readable r' := by
    intro encoded hput hvalid
    have hrow : r'.invocations.lookup encoded.invocationId =
        some ⟨encoded, encoded.record.status⟩ := by
      rw [hput, Table.lookup_put_self]
    have hrev : isUuidHex encoded.revision = true := by
      rcases h.revisions _ _ hrow with hold | hnew
      · exact (hr _ _ hold).2.1
      · exact hnew
    exact hr.put hput hvalid hrev
  cases h.commits with
  | untouched hu =>
    intro id row hrow
    rw [hu.invocations] at hrow
    exact hr id row hrow
  | created encoded hc => exact hwritten encoded hc.invocations hc.valid
  | overwritten _ encoded _ ho => exact hwritten encoded ho.invocations ho.valid

variable {i : InvocationIdentity}

theorem Readable.get (hr : Readable r) (hi : identityOf id r = some i) :
    ∃ handle, (getInvocation id).run r = .ok (some handle, r) ∧ handle.record.identity = i := by
  obtain ⟨row, hrow, rfl⟩ := Option.map_eq_some_iff.mp hi
  obtain ⟨hvalid, hrev, hid, hst⟩ := hr id row hrow
  exact ⟨_, getInvocation_run hrow hvalid hrev hid hst, rfl⟩

theorem Readable.invocationId (hr : Readable r) (hi : identityOf id r = some i) :
    i.invocationId = id := by
  obtain ⟨row, hrow, rfl⟩ := Option.map_eq_some_iff.mp hi
  exact (hr id row hrow).2.2.1

theorem getInvocation_identityOf {handle : ExecutionHandle}
    (h : (getInvocation id).run r = .ok (some handle, r')) :
    r = r' ∧ identityOf id r = some handle.record.identity ∧
      handle.record.identity.invocationId = id := by
  obtain ⟨rfl, ⟨-, hnone⟩ | ⟨row, hrow, hid, -, hfound⟩⟩ := getInvocation_eq_ok h
  · cases hnone
  · cases hfound
    refine ⟨rfl, ?_, hid⟩
    unfold identityOf
    rw [hrow]
    rfl

theorem readInput_grows (h : Grows r r') {input : Json} (hin : readInput i r = .ok input) :
    readInput i r' = .ok input := by
  unfold readInput at hin ⊢
  cases hrow : r.inputs.lookup i.invocationId with
  | none =>
    rw [hrow] at hin
    cases hin
  | some row =>
    rw [hrow] at hin
    rw [h.inputs _ row hrow]
    exact hin

end Runtime

/-! ## What the operations commit -/

section Inversion

variable {sv : ChildServices} {s s' : ChildStore}

theorem onRuntime_eq_ok {α : Type} {t : Transaction OwaError RuntimeStore α} {a : α} :
    (onRuntime t).run s = .ok (a, s') ↔
      ∃ x, t.run s.runtime = .ok (a, x) ∧ { s with runtime := x } = s' :=
  zoom_eq_ok

theorem onRuntime_getInvocation_eq_ok {found : Option ExecutionHandle} :
    (onRuntime (getInvocation id)).run s = .ok (found, s') ↔
      (getInvocation id).run s.runtime = .ok (found, s.runtime) ∧ s = s' := by
  rw [onRuntime_eq_ok]
  constructor
  · rintro ⟨x, hget, rfl⟩
    obtain ⟨rfl, -⟩ := getInvocation_eq_ok hget
    exact ⟨hget, rfl⟩
  · rintro ⟨hget, rfl⟩
    exact ⟨s.runtime, hget, rfl⟩

/-- The columns of a binding that `_binding` asks for. -/
def Named (b : ChildBinding) : Prop :=
  b.key ≠ "" ∧ b.rootId ≠ "" ∧ b.parentId ≠ "" ∧ b.childId ≠ "" ∧ 1 ≤ b.depth ∧
    b.parentTaskReference ≠ ""

theorem bindingOf_eq_ok {found : Option BindingRow} :
    bindingOf sv found = .ok b ↔
      found = some ⟨b, sv.bindingDigest b⟩ ∧ Named b := by
  simp only [bindingOf, Named, except_eq_ok, not_or, not_not, not_lt]
  constructor
  · rintro ⟨row, rfl, hdigest, hnamed, hb⟩
    cases hb
    exact ⟨by rw [hdigest], hnamed⟩
  · rintro ⟨rfl, hnamed⟩
    exact ⟨_, rfl, rfl, hnamed, rfl⟩

theorem get_eq_ok {identity : EffectIdentity} {found : Option ChildBinding} :
    (get sv identity).run s = .ok (found, s') ↔
      s = s' ∧ ((found = none ∧ s.bindings.lookup (sv.key identity) = none) ∨
        ∃ b, found = some b ∧
          s.bindings.lookup (sv.key identity) = some ⟨b, sv.bindingDigest b⟩ ∧ Named b ∧
          b.parentId = identity.invocationId) := by
  simp only [get, run_eq_ok]
  constructor
  · rintro ⟨hof, rfl⟩
    refine ⟨rfl, ?_⟩
    cases hrow : s.bindings.lookup (sv.key identity) with
    | none =>
      rw [hrow] at hof
      cases hof
      exact Or.inl ⟨rfl, rfl⟩
    | some =>
      simp only [hrow, ofParent, except_eq_ok, not_not] at hof
      obtain ⟨b, hb, hparent, hfound⟩ := hof
      cases hfound
      obtain ⟨hsome, hnamed⟩ := bindingOf_eq_ok.mp hb
      exact Or.inr ⟨b, rfl, hsome, hnamed, hparent⟩
  · rintro ⟨rfl, ⟨rfl, hnone⟩ | ⟨b, rfl, hrow, hnamed, hparent⟩⟩
    · exact ⟨by rw [hnone]; rfl, rfl⟩
    · simp only [hrow, ofParent, except_eq_ok, not_not]
      exact ⟨⟨b, bindingOf_eq_ok.mpr ⟨rfl, hnamed⟩, hparent, rfl⟩, trivial⟩

/-- The root of a budget row is stored under the fingerprint of the row. -/
structure Rooted (sv : ChildServices) (s : ChildStore) (rootId : String) (budget : BudgetRow) :
    Prop where
  row : s.budgets.lookup rootId = some budget
  sound : BudgetSound sv rootId budget
  root : ∃ handle, (getInvocation rootId).run s.runtime = .ok (some handle, s.runtime) ∧
    handle.record.identity.workflowFingerprint = budget.fingerprint

theorem soundBudget_eq_ok {rootId message : String} {budget : BudgetRow} :
    (soundBudget sv rootId message).run s = .ok (budget, s') ↔
      s = s' ∧ Rooted sv s rootId budget := by
  simp only [soundBudget, run_eq_ok, onRuntime_getInvocation_eq_ok, not_or, not_not]
  constructor
  · rintro ⟨_, hget, _, hrow, root, rfl, ⟨hfp, hsound⟩, rfl, rfl⟩
    exact ⟨rfl, hrow, hsound, root, hget, hfp⟩
  · rintro ⟨rfl, hrow, hsound, root, hget, hfp⟩
    exact ⟨_, hget, _, hrow, root, rfl, ⟨hfp, hsound⟩, rfl, rfl⟩

/-- What `verify` asks of the child. -/
def ChildFits (binding : ChildBinding) (parent : InvocationIdentity) (plan : ChildPlan)
    (c : InvocationIdentity) : Prop :=
  c.parentInvocationId = some parent.invocationId ∧
    c.parentTaskReference = some binding.parentTaskReference ∧ c.engine = parent.engine ∧
    c.ownerPrincipal = parent.ownerPrincipal ∧ c.userId = parent.userId ∧
    c.workflowFingerprint = plan.fingerprint ∧ c.workflowName = plan.name ∧
    c.workflowVersion = plan.version

/-- The evidence with which `verify` answers a child. -/
structure Verifies (sv : ChildServices) (s : ChildStore) (binding : ChildBinding)
    (parent : ExecutionHandle) (plan : ChildPlan) (input : Json) (child : ExecutionHandle) :
    Prop where
  budget : ∃ budget, Rooted sv s binding.rootId budget ∧ 1 ≤ budget.used ∧
    bindingCount binding.rootId s = budget.used ∧ 1 ≤ binding.depth ∧
    binding.depth ≤ budget.maxDepth
  request : effectRequestDigest sv.hash "run:workflow" (childRequest plan.fingerprint input) =
    .ok binding.requestDigest
  source : binding.workflowSource = plan.source
  found : (getInvocation binding.childId).run s.runtime = .ok (some child, s.runtime)
  fits : ChildFits binding parent.record.identity plan child.record.identity
  input : ∃ saved, readInput child.record.identity s.runtime = .ok saved ∧
    saved.canonical = input.canonical

theorem verify_eq_ok {binding : ChildBinding} {parent : ExecutionHandle} {plan : ChildPlan}
    {input : Json} : (verify sv binding parent plan input).run s = .ok (child, s') ↔
      s = s' ∧ Verifies sv s binding parent plan input child := by
  simp only [verify, run_eq_ok, soundBudget_eq_ok, onRuntime_getInvocation_eq_ok, not_or, not_not,
    not_lt]
  constructor
  · rintro ⟨budget, hrooted, request, hrequest, ⟨hused, hcount, hdepth, hmax, hreq, hsource⟩, _,
      hget, c, rfl, saved, hsaved, hfits, rfl, rfl⟩
    obtain ⟨h1, h2, h3, h4, h5, h6, h7, h8, hinput⟩ := hfits
    exact ⟨rfl, ⟨budget, hrooted, hused, hcount, hdepth, hmax⟩, by rw [hreq]; exact hrequest,
      hsource, hget, ⟨h1, h2, h3, h4, h5, h6, h7, h8⟩, saved, hsaved, hinput⟩
  · rintro ⟨rfl, ⟨budget, hrooted, hused, hcount, hdepth, hmax⟩, hrequest, hsource, hget,
      ⟨h1, h2, h3, h4, h5, h6, h7, h8⟩, saved, hsaved, hinput⟩
    exact ⟨budget, hrooted, _, hrequest, ⟨hused, hcount, hdepth, hmax, rfl, hsource⟩, _, hget,
      child, rfl, saved, hsaved, ⟨h1, h2, h3, h4, h5, h6, h7, h8, hinput⟩, rfl, rfl⟩

/-- Where a new child goes: below a root, or below a child that has a binding. -/
inductive Placed (sv : ChildServices) (s : ChildStore) (policy : ChildPolicy)
    (parent : InvocationIdentity) : String → ℕ → Table String BudgetRow → Prop
  | root (hroot : parent.parentInvocationId = none) :
      Placed sv s policy parent parent.invocationId 1
        (s.budgets.insertNew parent.invocationId (firstBudget sv policy parent))
  | nested (ancestor : ChildBinding)
      (hrow : rowOfChild parent.invocationId s = some ⟨ancestor, sv.bindingDigest ancestor⟩)
      (hparent : parent.parentInvocationId = some ancestor.parentId) :
      Placed sv s policy parent ancestor.rootId (ancestor.depth + 1) s.budgets

variable {policy : ChildPolicy} {ids : DrawnIds}

theorem place_eq_ok {spot : String × ℕ}
    (h : (place sv policy parent).run s = .ok (spot, s')) :
    ∃ budgets, s' = { s with budgets := budgets } ∧
      Placed sv s policy parent spot.1 spot.2 budgets := by
  unfold place at h
  cases hp : parent.parentInvocationId with
  | none =>
    simp only [hp, run_eq_ok] at h
    obtain ⟨rfl, rfl⟩ := h
    exact ⟨_, rfl, Placed.root hp⟩
  | some =>
    simp only [hp, run_eq_ok, not_not] at h
    obtain ⟨ancestor, hof, hparent, rfl, rfl⟩ := h
    obtain ⟨hrow, -⟩ := bindingOf_eq_ok.mp hof
    exact ⟨_, rfl, Placed.nested ancestor hrow (by rw [hp, hparent])⟩

/-- The binding that a reservation inserts. -/
def newBinding (sv : ChildServices) (r : Request) (digest rootId : String) (depth : ℕ)
    (ids : DrawnIds) : ChildBinding where
  key := sv.key r.identity
  rootId := rootId
  parentId := r.parent.record.identity.invocationId
  childId := ids.invocationId
  depth := depth
  requestDigest := digest
  workflowSource := r.plan.source
  parentTaskReference := r.reference

def recorded (sv : ChildServices) (runtime : RuntimeStore) (budgets : Table String BudgetRow)
    (bindings : Table String BindingRow) (b : ChildBinding) : ChildStore where
  runtime := runtime
  budgets := budgets.updateWhere b.rootId (fun _ => true)
    (fun budget => { budget with used := budget.used + 1 })
  bindings := bindings.put b.key ⟨b, sv.bindingDigest b⟩

/-- A committed reservation of a new child. -/
structure Reserves (sv : ChildServices) (s : ChildStore) (policy : ChildPolicy) (r : Request)
    (ids : DrawnIds) (digest rootId : String) (depth : ℕ) (budgets : Table String BudgetRow)
    (budget : BudgetRow) (runtime : RuntimeStore) (child : ExecutionHandle) (s' : ChildStore) :
    Prop where
  absent : s.bindings.lookup (sv.key r.identity) = none
  request : effectRequestDigest sv.hash "run:workflow"
    (childRequest r.plan.fingerprint r.input) = .ok digest
  placed : Placed sv s policy r.parent.record.identity rootId depth budgets
  rooted : Rooted sv { s with budgets := budgets } rootId budget
  count : bindingCount rootId s = budget.used
  deep : depth ≤ budget.maxDepth
  room : budget.used < budget.maxChildren
  created : (createInTransaction (childIdentity r.parent.record.identity r.plan r.reference ids)
    ids.revision (some r.input) none).run s.runtime = .ok (child, runtime)
  unbound : rowOfChild ids.invocationId s = none
  store : s' = recorded sv runtime budgets s.bindings (newBinding sv r digest rootId depth ids)

/-- What the guard of a reservation checks. -/
structure Authorised (s : ChildStore) (r : Request) : Prop where
  operation : r.identity.operation = "run:workflow"
  invocationId : r.identity.invocationId = r.parent.record.identity.invocationId
  fingerprint : r.identity.workflowFingerprint = r.parent.record.identity.workflowFingerprint
  leased : r.parent.executionLease ≠ none
  guard : ∀ l, r.parent.executionLease = some l →
    l.invocationId = r.parent.record.identity.invocationId ∧
    l.workflowFingerprint = r.parent.record.identity.workflowFingerprint ∧
    Ownership.writeGuard l s.runtime.owners = true

/-- A committed reservation answers the child of a binding that was there, or inserts one. -/
inductive Reserved (sv : ChildServices) (s : ChildStore) (policy : ChildPolicy) (r : Request)
    (ids : DrawnIds) (child : ExecutionHandle) : ChildStore → Prop
  | again (b : ChildBinding)
      (hrow : s.bindings.lookup (sv.key r.identity) = some ⟨b, sv.bindingDigest b⟩)
      (hparent : b.parentId = r.identity.invocationId)
      (hreference : b.parentTaskReference = r.reference)
      (hverifies : Verifies sv s b r.parent r.plan r.input child) :
      Reserved sv s policy r ids child s
  | new (digest rootId : String) (depth : ℕ) (budgets : Table String BudgetRow)
      (budget : BudgetRow) (runtime : RuntimeStore) (s' : ChildStore)
      (h : Reserves sv s policy r ids digest rootId depth budgets budget runtime child s') :
      Reserved sv s policy r ids child s'

theorem recordBinding_eq_ok {u : Unit} (h : (recordBinding sv b).run s = .ok (u, s')) :
    s.bindings.lookup b.key = none ∧ rowOfChild b.childId s = none ∧
      s' = recorded sv s.runtime s.budgets s.bindings b := by
  simp only [recordBinding, run_eq_ok, not_or, not_not] at h
  obtain ⟨⟨htaken, hchild⟩, rfl⟩ := h
  exact ⟨htaken, hchild, rfl⟩

theorem reserveNew_eq_ok {digest : String}
    (hrequest : effectRequestDigest sv.hash "run:workflow"
      (childRequest r.plan.fingerprint r.input) = .ok digest)
    (h : (reserveNew sv policy r digest ids).run s = .ok (child, s')) :
    Reserved sv s policy r ids child s' := by
  simp only [reserveNew, run_eq_ok, soundBudget_eq_ok, onRuntime_eq_ok, not_or, not_not, not_lt,
    not_le] at h
  obtain ⟨spot, s₁, hplace, budget, hrooted, hcount, ⟨hdeep, hroom⟩, c, runtime, hcreate, s₂,
    hrecord, s₃, hpart, rfl, rfl⟩ := h
  obtain ⟨budgets, rfl, hplaced⟩ := place_eq_ok hplace
  obtain ⟨encoded, -, hid, hhandle, -⟩ := createInTransaction_eq_ok hcreate
  have hchild : c.record.identity.invocationId = ids.invocationId := by
    rw [hhandle]
    show encoded.record.identity.invocationId = _
    rw [hid]
    rfl
  obtain ⟨habsent, hunbound, rfl⟩ := recordBinding_eq_ok hrecord
  -- the participant raises or leaves these tables alone
  have hlast : s₃ = recorded sv runtime budgets s.bindings
      (newBinding sv r digest spot.1 spot.2 ids) := by
    simp only [participate, run_eq_ok] at hpart
    obtain ⟨-, rfl⟩ := hpart
    rw [hchild]
    rfl
  rw [hchild] at hunbound
  exact Reserved.new digest spot.1 spot.2 budgets budget runtime s₃
    ⟨habsent, hrequest, hplaced, hrooted, hcount, hdeep, hroom, hcreate, hunbound, hlast⟩

theorem reserve_eq_ok
    (h : (reserve sv policy r ids).run s = .ok (child, s')) :
    Authorised s r ∧ Reserved sv s policy r ids child s' := by
  simp only [reserve, run_eq_ok, Ownership.ownedWriteTransaction_eq_ok, get_eq_ok, not_or,
    not_not] at h
  obtain ⟨⟨hop, hid, hfp, hlease⟩, digest, hdigest, hguard, existing, hexisting, hfound⟩ := h
  refine ⟨⟨hop, hid, hfp, hlease, hguard⟩, ?_⟩
  rcases hexisting with ⟨rfl, -⟩ | ⟨b, rfl, hrow, -, hparent⟩
  · exact reserveNew_eq_ok hdigest hfound
  · simp only [reserveFound, run_eq_ok, verify_eq_ok, not_or, not_not] at hfound
    obtain ⟨-, hreference, rfl, hverifies⟩ := hfound
    exact Reserved.again b hrow hparent hreference hverifies

theorem reserve_again (hauth : Authorised s r)
    (hrow : s.bindings.lookup (sv.key r.identity) = some ⟨b, sv.bindingDigest b⟩) (hnamed : Named b)
    (hparent : b.parentId = r.identity.invocationId)
    (hreference : b.parentTaskReference = r.reference)
    (hverifies : Verifies sv s b r.parent r.plan r.input child) :
    (reserve sv policy r ids).run s = .ok (child, s) := by
  simp only [reserve, run_eq_ok, Ownership.ownedWriteTransaction_eq_ok, get_eq_ok, not_or, not_not]
  refine ⟨⟨hauth.operation, hauth.invocationId, hauth.fingerprint, hauth.leased⟩, b.requestDigest,
    hverifies.request, hauth.guard, some b, Or.inr ⟨b, rfl, hrow, hnamed, hparent⟩, ?_⟩
  simp only [reserveFound, run_eq_ok, verify_eq_ok, not_or, not_not]
  exact ⟨⟨trivial, hverifies.source⟩, hreference, trivial, hverifies⟩

end Inversion

/-! ## The books -/

/-- The binding above a binding: the parent is the root, or the child of a binding of the same
tree that is one level up. -/
def Above (s : ChildStore) (b : ChildBinding) (p : InvocationIdentity) : Prop :=
  (b.depth = 1 ∧ b.rootId = b.parentId ∧ p.parentInvocationId = none) ∨
    ∃ key row, s.bindings.lookup key = some row ∧ row.binding.childId = b.parentId ∧
      row.binding.rootId = b.rootId ∧ b.depth = row.binding.depth + 1

/-- A binding agrees with its parent, its child and the child's input. -/
structure Bound (sv : ChildServices) (s : ChildStore) (b : ChildBinding)
    (p c : InvocationIdentity) : Prop where
  parent : identityOf b.parentId s.runtime = some p
  child : identityOf b.childId s.runtime = some c
  parentInvocationId : c.parentInvocationId = some b.parentId
  parentTaskReference : c.parentTaskReference = some b.parentTaskReference
  engine : c.engine = p.engine
  ownerPrincipal : c.ownerPrincipal = p.ownerPrincipal
  userId : c.userId = p.userId
  sessionId : c.sessionId ≠ p.sessionId
  source : sourceAgrees b.workflowSource c = true
  input : ∃ input, readInput c s.runtime = .ok input ∧
    effectRequestDigest sv.hash "run:workflow" (childRequest c.workflowFingerprint input) =
      .ok b.requestDigest
  above : Above s b p

structure BindingBooks (sv : ChildServices) (s : ChildStore) (key : String) (row : BindingRow) :
    Prop where
  key_eq : row.binding.key = key
  digest : row.digest = sv.bindingDigest row.binding
  named : Named row.binding
  bound : ∃ p c, Bound sv s row.binding p c
  budget : ∃ budget, s.budgets.lookup row.binding.rootId = some budget ∧
    row.binding.depth ≤ budget.maxDepth

/-- What the tables say of one another. -/
structure Books (sv : ChildServices) (s : ChildStore) : Prop where
  readable : Readable s.runtime
  rows : ∀ key row, s.bindings.lookup key = some row → BindingBooks sv s key row
  unique : ∀ key row key' row', s.bindings.lookup key = some row →
    s.bindings.lookup key' = some row' → row'.binding.childId = row.binding.childId → key' = key
  budgets : ∀ rootId budget, s.budgets.lookup rootId = some budget →
    BudgetSound sv rootId budget ∧ budget.used = bindingCount rootId s ∧
      ∃ i, identityOf rootId s.runtime = some i ∧ i.workflowFingerprint = budget.fingerprint ∧
        i.parentInvocationId = none

section Books

variable {sv : ChildServices} {s s' : ChildStore}

variable {row : BindingRow}

theorem rowOfChild_eq_some {childId : String} (h : rowOfChild childId s = some row) :
    ∃ key, s.bindings.lookup key = some row ∧ row.binding.childId = childId := by
  unfold rowOfChild at h
  obtain ⟨⟨key, row'⟩, hfind, rfl⟩ := Option.map_eq_some_iff.mp h
  exact ⟨key, Table.mem_rows.mp (List.mem_of_find?_eq_some hfind), by
    simpa using List.find?_some hfind⟩

theorem rowOfChild_eq_none {childId : String} (h : rowOfChild childId s = none)
    (hrow : s.bindings.lookup key = some row) : row.binding.childId ≠ childId := by
  unfold rowOfChild at h
  rw [Option.map_eq_none_iff, List.find?_eq_none] at h
  simpa using h (key, row) (Table.mem_rows.mpr hrow)

theorem Books.rowOfChild (hb : Books sv s) (hrow : s.bindings.lookup key = some row) : 
    rowOfChild row.binding.childId s = some row := by
  cases h : Children.rowOfChild row.binding.childId s with
  | none => exact absurd rfl (rowOfChild_eq_none h hrow)
  | some row' =>
    obtain ⟨key', hrow', hchild⟩ := rowOfChild_eq_some h
    rw [hb.unique key row key' row' hrow hrow' hchild, hrow] at hrow'
    exact hrow'.symm

/-- Bindings are there to stay, and so is what they are about. -/
structure Extends (s s' : ChildStore) : Prop where
  runtime : Grows s.runtime s'.runtime
  bindings : ∀ key row, s.bindings.lookup key = some row → s'.bindings.lookup key = some row
  budgets : ∀ rootId budget, s.budgets.lookup rootId = some budget →
    ∃ budget', s'.budgets.lookup rootId = some budget' ∧ budget'.maxDepth = budget.maxDepth ∧
      budget'.maxChildren = budget.maxChildren

theorem Extends.refl (s : ChildStore) : Extends s s :=
  ⟨Grows.refl _, fun _ _ h => h, fun _ budget h => ⟨budget, h, rfl, rfl⟩⟩

theorem Extends.trans {s₁ s₂ s₃ : ChildStore} (h₁ : Extends s₁ s₂) (h₂ : Extends s₂ s₃) :
    Extends s₁ s₃ where
  runtime := h₁.runtime.trans h₂.runtime
  bindings key row h := h₂.bindings key row (h₁.bindings key row h)
  budgets rootId budget h := by
    obtain ⟨budget', h', hdepth, hchildren⟩ := h₁.budgets rootId budget h
    obtain ⟨budget'', h'', hdepth', hchildren'⟩ := h₂.budgets rootId budget' h'
    exact ⟨budget'', h'', hdepth'.trans hdepth, hchildren'.trans hchildren⟩

theorem Bound.extends {p : InvocationIdentity} (h : Bound sv s b p c) (he : Extends s s') :
    Bound sv s' b p c :=
  { h with
    parent := he.runtime.identity _ _ h.parent
    child := he.runtime.identity _ _ h.child
    input := by
      obtain ⟨input, hread, hdigest⟩ := h.input
      exact ⟨input, readInput_grows he.runtime hread, hdigest⟩
    above := by
      rcases h.above with hroot | ⟨key, row, hrow, hrest⟩
      · exact Or.inl hroot
      · exact Or.inr ⟨key, row, he.bindings key row hrow, hrest⟩ }

theorem BindingBooks.extends (h : BindingBooks sv s key row) (he : Extends s s') :
    BindingBooks sv s' key row :=
  { h with
    bound := by
      obtain ⟨p, c, hbound⟩ := h.bound
      exact ⟨p, c, hbound.extends he⟩
    budget := by
      obtain ⟨budget, hrow, hdepth⟩ := h.budget
      obtain ⟨budget', hrow', hsame, -⟩ := he.budgets _ budget hrow
      exact ⟨budget', hrow', by rw [hsame]; exact hdepth⟩ }

/-! ## A new reservation -/

/-- What a reservation relies on: the parent's handle carries the stored identity, and the
identifiers are new. -/
structure Drawn (s : ChildStore) (r : Request) (ids : DrawnIds) : Prop where
  loaded : identityOf r.parent.record.identity.invocationId s.runtime =
    some r.parent.record.identity
  invocationId : ids.invocationId ≠ ""
  revision : isUuidHex ids.revision = true
  sessionId : ids.sessionId ≠ r.parent.record.identity.sessionId

theorem reference_ne (r : Request) : r.reference ≠ "" := by
  unfold Request.reference
  split
  · split
    · exact r.identity.named.2.2.1
    · assumption
  · exact r.identity.named.2.2.1

section NewChild

variable {policy : ChildPolicy} {ids : DrawnIds} {digest rootId : String} {depth : ℕ}
  {budgets : Table String BudgetRow} {budget : BudgetRow} {runtime : RuntimeStore}

section

variable (h : Reserves sv s policy r ids digest rootId depth budgets budget runtime child s')

include h

theorem Reserves.identity :
    child.record.identity = childIdentity r.parent.record.identity r.plan r.reference ids := by
  obtain ⟨encoded, -, hid, hhandle, -⟩ := createInTransaction_eq_ok h.created
  rw [hhandle]
  exact hid

theorem Reserves.grows :
    Grows s.runtime runtime ∧ identityOf ids.invocationId runtime =
      some (childIdentity r.parent.record.identity r.plan r.reference ids) ∧
    readInput (childIdentity r.parent.record.identity r.plan r.reference ids) runtime =
      .ok r.input := by
  obtain ⟨encoded, -, hid, -, hcreates, -, hinput, hinputs⟩ := createInTransaction_eq_ok h.created
  obtain ⟨hvalid, hfree⟩ := hinput r.input rfl
  have hid' : encoded.record.identity =
      childIdentity r.parent.record.identity r.plan r.reference ids := hid
  have hchild : encoded.invocationId = ids.invocationId := by
    unfold Snapshot.invocationId
    rw [hid']
    rfl
  have hput : runtime.inputs = s.runtime.inputs.put ids.invocationId
      ⟨r.plan.fingerprint, r.input⟩ := by
    rw [hinputs, hid']
    rfl
  refine ⟨⟨(Creates.identityOf hcreates).2, fun id row hrow => ?_⟩, ?_, ?_⟩
  · have hne : id ≠ ids.invocationId := by
      rintro rfl
      rw [← hchild, hfree] at hrow
      cases hrow
    rw [hput, Table.lookup_put_ne hne, hrow]
  · rw [← hchild, (Creates.identityOf hcreates).1, hid']
  · have hrow : runtime.inputs.lookup ids.invocationId =
        some ⟨r.plan.fingerprint, r.input⟩ := by rw [hput, Table.lookup_put_self]
    simp only [readInput, childIdentity, hrow, hvalid, ne_eq, not_true_eq_false, if_false, if_true]

theorem Reserves.readable (hr : Readable s.runtime) (hrev : isUuidHex ids.revision = true) :
    Readable runtime := by
  obtain ⟨encoded, hrevision, -, -, hcreates, -⟩ := createInTransaction_eq_ok h.created
  exact hr.put hcreates.invocations hcreates.valid (by rw [hrevision]; exact hrev)

end

/-- The budget rows of other roots stay, and the one of this root was there or is new. -/
theorem Placed.lookup (h : Placed sv s policy parent rootId depth budgets) :
    (∀ id, id ≠ rootId → budgets.lookup id = s.budgets.lookup id) ∧
      ∀ id row, s.budgets.lookup id = some row → budgets.lookup id = some row := by
  cases h with
  | root =>
    exact ⟨fun id hne => Table.lookup_insertNew_ne hne,
      fun id row hrow => Table.lookup_insertNew_of_some hrow⟩
  | nested => exact ⟨fun _ _ => rfl, fun _ _ h => h⟩

section

variable (h : Reserves sv s policy r ids digest rootId depth budgets budget runtime child s')

include h

theorem Reserves.budgets_ne (hne : id ≠ rootId) : s'.budgets.lookup id = s.budgets.lookup id := by
  rw [h.store]
  exact (Table.lookup_updateWhere_ne hne).trans (h.placed.lookup.1 id hne)

theorem Reserves.budgets_self :
    s'.budgets.lookup rootId = some { budget with used := budget.used + 1 } := by
  rw [h.store]
  show (budgets.updateWhere rootId _ _).lookup rootId = _
  have hrow : budgets.lookup rootId = some budget := h.rooted.row
  rw [Table.lookup_updateWhere_self, hrow]
  rfl

theorem Reserves.lookup_ne (hne : key ≠ sv.key r.identity) :
    s'.bindings.lookup key = s.bindings.lookup key := by
  rw [h.store]
  exact Table.lookup_put_ne hne

theorem Reserves.lookup_self :
    s'.bindings.lookup (sv.key r.identity) = some ⟨newBinding sv r digest rootId depth ids,
      sv.bindingDigest (newBinding sv r digest rootId depth ids)⟩ := by
  rw [h.store]
  exact Table.lookup_put_self

theorem Reserves.extends : Extends s s' where
  runtime := by
    rw [h.store]
    exact h.grows.1
  bindings key row hrow := by
    have hne : key ≠ sv.key r.identity := by
      rintro rfl
      rw [h.absent] at hrow
      cases hrow
    rw [h.lookup_ne hne, hrow]
  budgets id row hrow := by
    by_cases hid : id = rootId
    · subst hid
      have hsame : budget = row := by
        have hrow' : budgets.lookup id = some budget := h.rooted.row
        rw [h.placed.lookup.2 id row hrow, Option.some.injEq] at hrow'
        exact hrow'.symm
      exact ⟨_, h.budgets_self, by rw [hsame], by rw [hsame]⟩
    · exact ⟨row, by rw [h.budgets_ne hid, hrow], rfl, rfl⟩

theorem Reserves.count_eq (id : String) :
    bindingCount id s' = bindingCount id s + if id = rootId then 1 else 0 := by
  unfold bindingCount Table.selectRows
  have hrows : s'.bindings.rows = (sv.key r.identity, ⟨newBinding sv r digest rootId depth ids,
      sv.bindingDigest (newBinding sv r digest rootId depth ids)⟩) :: s.bindings.rows := by
    rw [h.store]
    exact Table.rows_put_of_none _ h.absent
  rw [hrows, List.filter_cons]
  by_cases hid : id = rootId
  · rw [if_pos (by simp [newBinding, hid]), if_pos hid, List.length_cons]
  · have hother : ¬ decide ((newBinding sv r digest rootId depth ids).rootId = id) = true :=
      fun heq => hid (of_decide_eq_true heq).symm
    rw [if_neg hother, if_neg hid, Nat.add_zero]

end

end NewChild

section NewBooks

variable {policy : ChildPolicy} {ids : DrawnIds} {digest rootId : String} {depth : ℕ}
  {budgets : Table String BudgetRow} {budget : BudgetRow} {runtime : RuntimeStore}

theorem sourceAgrees_of_stated (plan : ChildPlan) (hname : c.workflowName = plan.name)
    (hversion : c.workflowVersion = plan.version) : sourceAgrees plan.source c = true := by
  obtain ⟨document, fields, hdocument, rfl, hn, hv⟩ := plan.stated
  unfold sourceAgrees
  rw [hdocument]
  simp only [hn, hv, hname, hversion, and_self, decide_true]

theorem Placed.named (hb : Books sv s) (h : Placed sv s policy parent rootId depth budgets)
    (hparent : parent.invocationId ≠ "") : rootId ≠ "" ∧ 1 ≤ depth := by
  cases h with
  | root => exact ⟨hparent, le_rfl⟩
  | nested _ hrow =>
    obtain ⟨key, hkey, -⟩ := rowOfChild_eq_some hrow
    exact ⟨(hb.rows key _ hkey).named.2.1, Nat.le_add_left 1 _⟩

theorem Reserves.bound (hdrawn : Drawn s r ids)
    (h : Reserves sv s policy r ids digest rootId depth budgets budget runtime child s') :
    Bound sv s' (newBinding sv r digest rootId depth ids) r.parent.record.identity
      (childIdentity r.parent.record.identity r.plan r.reference ids) := by
  obtain ⟨hgrows, hchild, hinput⟩ := h.grows
  have hruntime : s'.runtime = runtime := by rw [h.store]; rfl
  refine ⟨?_, ?_, rfl, rfl, rfl, rfl, rfl, hdrawn.sessionId,
    sourceAgrees_of_stated r.plan rfl rfl, ⟨r.input, ?_, h.request⟩, ?_⟩
  · rw [hruntime]
    exact hgrows.identity _ _ hdrawn.loaded
  · rw [hruntime]
    exact hchild
  · rw [hruntime]
    exact hinput
  · have hplaced := h.placed
    have hext := h.extends
    cases hplaced with
    | root hroot => exact Or.inl ⟨rfl, rfl, hroot⟩
    | nested _ hrow =>
      obtain ⟨key, hkey, hchildId⟩ := rowOfChild_eq_some hrow
      exact Or.inr ⟨key, _, hext.bindings key _ hkey, hchildId, rfl, rfl⟩

theorem Reserves.newBooks (hkey : ∀ identity, sv.key identity ≠ "") (hb : Books sv s)
    (hauth : Authorised s r) (hdrawn : Drawn s r ids)
    (h : Reserves sv s policy r ids digest rootId depth budgets budget runtime child s') :
    BindingBooks sv s' (sv.key r.identity) ⟨newBinding sv r digest rootId depth ids,
      sv.bindingDigest (newBinding sv r digest rootId depth ids)⟩ where
  key_eq := rfl
  digest := rfl
  named := by
    have hparent : r.parent.record.identity.invocationId ≠ "" := by
      rw [← hauth.invocationId]
      exact r.identity.named.1
    obtain ⟨hroot, hdepth⟩ := h.placed.named hb hparent
    exact ⟨hkey r.identity, hroot, hparent, hdrawn.invocationId, hdepth, reference_ne r⟩
  bound := ⟨_, _, h.bound hdrawn⟩
  budget := ⟨_, h.budgets_self, h.deep⟩

theorem Reserves.root (hb : Books sv s) (hdrawn : Drawn s r ids)
    (h : Reserves sv s policy r ids digest rootId depth budgets budget runtime child s') :
    ∃ i, identityOf rootId s.runtime = some i ∧ i.workflowFingerprint = budget.fingerprint ∧
      i.parentInvocationId = none := by
  obtain ⟨handle, hget, hfp⟩ := h.rooted.root
  have hget' : (getInvocation rootId).run s.runtime = .ok (some handle, s.runtime) := hget
  obtain ⟨-, hid, -⟩ := getInvocation_identityOf hget'
  refine ⟨handle.record.identity, hid, hfp, ?_⟩
  have hrow : budgets.lookup rootId = some budget := h.rooted.row
  have hplaced := h.placed
  cases hplaced with
  | root hroot =>
    rw [hdrawn.loaded, Option.some.injEq] at hid
    rw [← hid]
    exact hroot
  | nested =>
    obtain ⟨-, -, i, hi, -, hnone⟩ := hb.budgets _ budget hrow
    rw [hid, Option.some.injEq] at hi
    rw [hi]
    exact hnone

theorem Reserves.books (hkey : ∀ identity, sv.key identity ≠ "") (hb : Books sv s)
    (hauth : Authorised s r) (hdrawn : Drawn s r ids)
    (h : Reserves sv s policy r ids digest rootId depth budgets budget runtime child s') :
    Books sv s' := by
  have hext := h.extends
  have hold : ∀ key row, s'.bindings.lookup key = some row →
      (key = sv.key r.identity ∧ row = ⟨newBinding sv r digest rootId depth ids,
        sv.bindingDigest (newBinding sv r digest rootId depth ids)⟩) ∨
      s.bindings.lookup key = some row := by
    intro key row hrow
    by_cases hk : key = sv.key r.identity
    · subst hk
      rw [h.lookup_self, Option.some.injEq] at hrow
      exact Or.inl ⟨rfl, hrow.symm⟩
    · rw [h.lookup_ne hk] at hrow
      exact Or.inr hrow
  refine ⟨?_, fun key row hrow => ?_, fun key row key' row' hrow hrow' hchild => ?_,
    fun id row hrow => ?_⟩
  · rw [h.store]
    exact h.readable hb.readable hdrawn.revision
  · rcases hold key row hrow with ⟨rfl, rfl⟩ | hrow
    · exact h.newBooks hkey hb hauth hdrawn
    · exact (hb.rows key row hrow).extends hext
  · -- the drawn child is not the child of an earlier binding
    rcases hold key row hrow with ⟨rfl, rfl⟩ | hrow <;>
      rcases hold key' row' hrow' with ⟨rfl, rfl⟩ | hrow'
    · rfl
    · exact absurd hchild (rowOfChild_eq_none h.unbound hrow')
    · exact absurd hchild.symm (rowOfChild_eq_none h.unbound hrow)
    · exact hb.unique key row key' row' hrow hrow' hchild
  · rw [h.count_eq]
    by_cases hid : id = rootId
    · subst hid
      rw [h.budgets_self, Option.some.injEq] at hrow
      subst hrow
      obtain ⟨i, hi, hrest⟩ := h.root hb hdrawn
      obtain ⟨hdepth, hchildren, -, hdigest⟩ := h.rooted.sound
      refine ⟨⟨hdepth, hchildren, h.room, hdigest⟩, ?_, i, hext.runtime.identity _ _ hi, hrest⟩
      rw [if_pos rfl, h.count]
    · rw [h.budgets_ne hid] at hrow
      obtain ⟨hsound, hused, i, hi, hrest⟩ := hb.budgets id row hrow
      refine ⟨hsound, ?_, i, hext.runtime.identity _ _ hi, hrest⟩
      rw [if_neg hid, hused, Nat.add_zero]

end NewBooks

end Books

/-! ## Every run -/

section Runs

variable (sv : ChildServices) (sha256 : Snapshot → String)

/-- One committed transaction: a reservation under any configured policy, or a transaction of
the invocation store. -/
inductive Step (s : ChildStore) : ChildStore → Prop where
  | reserve {policy : ChildPolicy} {r : Request} {ids : DrawnIds} {child : ExecutionHandle}
      {s' : ChildStore} (drawn : Drawn s r ids)
      (run : (reserve sv policy r ids).run s = .ok (child, s')) : Step s s'
  | runtime {runtime : RuntimeStore} (step : RuntimeStep sha256 s.runtime runtime) :
      Step s { s with runtime := runtime }

abbrev Steps : ChildStore → ChildStore → Prop := Relation.ReflTransGen (Step sv sha256)

/-- A database before its first reservation. -/
structure Initial (s : ChildStore) : Prop where
  readable : Readable s.runtime
  budgets : s.budgets = ∅
  bindings : s.bindings = ∅

variable {sv sha256} {s s' : ChildStore}

theorem Initial.books (h : Initial s) : Books sv s where
  readable := h.readable
  rows key row hrow := by
    rw [h.bindings] at hrow
    cases hrow
  unique key row _ _ hrow := by
    rw [h.bindings] at hrow
    cases hrow
  budgets id budget hrow := by
    rw [h.budgets] at hrow
    cases hrow

theorem runtime_extends {runtime : RuntimeStore} (h : RuntimeStep sha256 s.runtime runtime) :
    Extends s { s with runtime := runtime } :=
  ⟨h.grows, fun _ _ hrow => hrow, fun _ budget hrow => ⟨budget, hrow, rfl, rfl⟩⟩

theorem Step.extends (h : Step sv sha256 s s') : Extends s s' := by
  cases h with
  | reserve _ run =>
    obtain ⟨-, hreserved⟩ := reserve_eq_ok run
    cases hreserved with
    | again => exact Extends.refl s
    | new _ _ _ _ _ _ _ hnew => exact hnew.extends
  | runtime step => exact runtime_extends step

theorem Steps.extends (h : Steps sv sha256 s s') : Extends s s' := by
  induction h with
  | refl => exact Extends.refl s
  | tail _ hstep ih => exact ih.trans hstep.extends

theorem Step.books (hkey : ∀ identity, sv.key identity ≠ "") (h : Step sv sha256 s s')
    (hb : Books sv s) : Books sv s' := by
  cases h with
  | reserve drawn run =>
    obtain ⟨hauth, hreserved⟩ := reserve_eq_ok run
    cases hreserved with
    | again => exact hb
    | new _ _ _ _ _ _ _ hnew => exact hnew.books hkey hb hauth drawn
  | runtime step =>
    have hext := runtime_extends step
    refine ⟨step.readable hb.readable, fun key row hrow => (hb.rows key row hrow).extends hext,
      hb.unique, fun id budget hrow => ?_⟩
    obtain ⟨hsound, hused, i, hi, hrest⟩ := hb.budgets id budget hrow
    exact ⟨hsound, hused, i, hext.runtime.identity _ _ hi, hrest⟩

theorem Steps.books (hkey : ∀ identity, sv.key identity ≠ "") (h : Steps sv sha256 s s')
    (hb : Books sv s) : Books sv s' := by
  induction h with
  | refl => exact hb
  | tail _ hstep ih => exact hstep.books hkey ih

end Runs

/-! ## Depth is distance -/

section Depth

variable {sv : ChildServices} {s : ChildStore}

/-- The invocation is `n` reservations below the root. -/
inductive Distance (s : ChildStore) (rootId : String) : String → ℕ → Prop
  | root {i : InvocationIdentity} (stored : identityOf rootId s.runtime = some i)
      (top : i.parentInvocationId = none) : Distance s rootId rootId 0
  | child {key : String} {row : BindingRow} {n : ℕ} (stored : s.bindings.lookup key = some row)
      (above : Distance s rootId row.binding.parentId n) :
      Distance s rootId row.binding.childId (n + 1)

theorem Books.distance (hb : Books sv s) {n : ℕ} : ∀ {key : String} {row : BindingRow},
    s.bindings.lookup key = some row → row.binding.depth = n →
    Distance s row.binding.rootId row.binding.childId row.binding.depth := by
  induction n using Nat.strong_induction_on with
  | _ n ih =>
    intro key row hrow hn
    obtain ⟨p, c, hbound⟩ := (hb.rows key row hrow).bound
    rcases hbound.above with ⟨hone, hroot, htop⟩ | ⟨key', row', hrow', hchild, hroot, hdepth⟩
    · rw [hone, hroot]
      exact Distance.child hrow (Distance.root hbound.parent htop)
    · have hlt : row'.binding.depth < n := by omega
      have habove := ih _ hlt hrow' rfl
      rw [hchild, hroot] at habove
      rw [hdepth]
      exact Distance.child hrow habove

variable {row : BindingRow}

section

variable (hb : Books sv s)

include hb

theorem Books.child_parent (hrow : s.bindings.lookup key = some row) {i : InvocationIdentity}
    (hi : identityOf row.binding.childId s.runtime = some i) : i.parentInvocationId ≠ none := by
  obtain ⟨p, c, hbound⟩ := (hb.rows key row hrow).bound
  rw [hbound.child, Option.some.injEq] at hi
  rw [← hi, hbound.parentInvocationId]
  simp

/-- The root of an invocation and its distance from it are determined. -/
theorem Distance.unique {rootId rootId' : String} {n m : ℕ} (h : Distance s rootId id n)
    (h' : Distance s rootId' id m) : rootId' = rootId ∧ m = n := by
  induction h generalizing m with
  | root stored top =>
    cases h' with
    | root => exact ⟨rfl, rfl⟩
    | child stored' => exact absurd top (hb.child_parent stored' stored)
  | @child key row n stored above ih =>
    generalize hid : row.binding.childId = id at h'
    cases h' with
    | root stored' top' =>
      rw [← hid] at stored'
      exact absurd top' (hb.child_parent stored stored')
    | @child key' row' m stored' above' =>
      have hkey := hb.unique key row key' row' stored stored' hid.symm
      rw [hkey, stored, Option.some.injEq] at stored'
      subst stored'
      obtain ⟨hroot, hm⟩ := ih above'
      exact ⟨hroot, by rw [hm]⟩

/-! ## Verification -/

theorem Books.binding_ok (hrow : s.bindings.lookup key = some row) :
    bindingOf sv (some row) = .ok row.binding := by
  have hbooks := hb.rows key row hrow
  refine bindingOf_eq_ok.mpr ⟨?_, hbooks.named⟩
  rw [← hbooks.digest]

/-- The walk of `verify_control` reaches the root.  The induction is on the levels that are
left; the binding above is in the books again. -/
theorem Books.walk :
    ∀ {n : ℕ} {key : String} {row : BindingRow}
    {p : InvocationIdentity}, s.bindings.lookup key = some row →
    identityOf row.binding.parentId s.runtime = some p → row.binding.depth = n + 1 →
    ∃ top, (walk sv row.binding.rootId n p).run s = .ok (top, s) ∧
      top.invocationId = row.binding.rootId ∧ top.parentInvocationId = none := by
  intro n
  induction n with
  | zero =>
    intro key row p hrow hp hn
    obtain ⟨p', c, hbound⟩ := (hb.rows key row hrow).bound
    rw [hbound.parent, Option.some.injEq] at hp
    subst hp
    rcases hbound.above with ⟨-, hroot, htop⟩ | ⟨key', row', hrow', -, -, hdepth⟩
    · refine ⟨p', rfl, ?_, htop⟩
      rw [hb.readable.invocationId hbound.parent, hroot]
    · have hpos := (hb.rows key' row' hrow').named.2.2.2.2.1
      omega
  | succ _ ih =>
    intro key row p hrow hp hn
    obtain ⟨p', c, hbound⟩ := (hb.rows key row hrow).bound
    rw [hbound.parent, Option.some.injEq] at hp
    subst hp
    rcases hbound.above with ⟨hone, -, -⟩ | ⟨key', row', hrow', hchild, hroot, hdepth⟩
    · omega
    · -- the parent is the child of the binding one level up
      obtain ⟨p'', c', hbound'⟩ := (hb.rows key' row' hrow').bound
      have hc : c' = p' := by
        have hsame := hbound'.child
        rw [hchild, hbound.parent, Option.some.injEq] at hsame
        exact hsame.symm
      subst hc
      have hid : c'.invocationId = row'.binding.childId :=
        hb.readable.invocationId hbound'.child
      obtain ⟨handle, hget, hhandle⟩ := hb.readable.get hbound'.parent
      obtain ⟨top, hwalk, htop⟩ := ih hrow' hbound'.parent (by omega)
      rw [hroot] at hwalk htop
      refine ⟨top, ?_, htop⟩
      simp only [Children.walk, run_eq_ok, onRuntime_getInvocation_eq_ok, not_or, not_not]
      rw [hid, hb.rowOfChild hrow']
      exact ⟨row'.binding, hb.binding_ok hrow', ⟨hroot, by omega, hbound'.parentInvocationId,
        hbound'.parentTaskReference⟩, some handle, hget, handle, rfl, by rw [hhandle]; exact hwalk⟩

/-- The budget of a stored binding is sound and counts it. -/
theorem Books.rooted (hrow : s.bindings.lookup key = some row) :
    ∃ budget, Rooted sv s row.binding.rootId budget ∧ 1 ≤ budget.used ∧
      bindingCount row.binding.rootId s = budget.used ∧ 1 ≤ row.binding.depth ∧
      row.binding.depth ≤ budget.maxDepth := by
  have hbooks := hb.rows key row hrow
  obtain ⟨budget, hlookup, hdepth⟩ := hbooks.budget
  obtain ⟨hsound, hused, i, hi, hfp, -⟩ := hb.budgets _ budget hlookup
  obtain ⟨handle, hget, hid⟩ := hb.readable.get hi
  have hpos : 1 ≤ bindingCount row.binding.rootId s := by
    have hmem : (key, row) ∈ s.bindings.selectRows
        fun _ r => r.binding.rootId = row.binding.rootId :=
      Table.mem_selectRows.mpr ⟨Table.mem_rows.mpr hrow, by simp⟩
    exact List.length_pos_of_mem hmem
  exact ⟨budget, ⟨hlookup, hsound, handle, hget, by rw [hid]; exact hfp⟩, by rw [hused]; exact hpos,
    hused.symm, hbooks.named.2.2.2.2.1, hdepth⟩

/-- **Every stored binding passes `verify_control`.** -/
theorem Books.verifyControl {p : InvocationIdentity} (hrow : s.bindings.lookup key = some row)
    (hp : identityOf row.binding.parentId s.runtime = some p) :
    ∃ child, (verifyControl sv row.binding p).run s = .ok (child, s) ∧
      child.record.identity.invocationId = row.binding.childId := by
  have hbooks := hb.rows key row hrow
  obtain ⟨p', c, hbound⟩ := hbooks.bound
  rw [hbound.parent, Option.some.injEq] at hp
  subst hp
  have hpid := hb.readable.invocationId hbound.parent
  obtain ⟨budget, hrooted, hused, hcount, hdepth, hmax⟩ := hb.rooted hrow
  obtain ⟨parent, hgetParent, hparent⟩ := hb.readable.get hbound.parent
  obtain ⟨child, hgetChild, hchild⟩ := hb.readable.get hbound.child
  obtain ⟨input, hinput, hrequest⟩ := hbound.input
  obtain ⟨top, hwalk, htop, hnone⟩ := hb.walk (n := row.binding.depth - 1) hrow hbound.parent
    (by omega)
  have hagrees : ControlAgrees row.binding p' parent.record.identity child.record.identity := by
    rw [hparent, hchild]
    exact ⟨hpid.symm, rfl, rfl, rfl, rfl, rfl, rfl, by rw [hpid]; exact hbound.parentInvocationId,
      hbound.parentTaskReference, hbound.engine, hbound.ownerPrincipal, hbound.userId,
      hbound.sessionId⟩
  refine ⟨child, ?_, by rw [hchild]; exact hb.readable.invocationId hbound.child⟩
  simp only [Children.verifyControl, run_eq_ok, soundBudget_eq_ok, onRuntime_getInvocation_eq_ok,
    not_or, not_not, not_lt]
  rw [hpid]
  refine ⟨row.binding, ?_, rfl, budget, hrooted, some parent, hgetParent, parent, rfl, some child,
    hgetChild, child, rfl, input, by rw [hchild]; exact hinput, row.binding.requestDigest,
    by rw [hchild]; exact hrequest, ⟨hused, hcount.symm, hdepth, hmax, hagrees, rfl⟩,
    by rw [hchild, hbound.source]; simp, top, s, by rw [hparent]; exact hwalk, ⟨htop, hnone⟩, rfl,
    rfl⟩
  rw [hbooks.key_eq, hrow]
  exact hb.binding_ok hrow

end

end Depth

/-! ## One child forever -/

section Forever

variable {sv : ChildServices} {sha256 : Snapshot → String} {s s' : ChildStore}

/-- The identity of the request is bound to the child, for this very request. -/
structure Answers (sv : ChildServices) (s : ChildStore) (r : Request) (b : ChildBinding)
    (c : InvocationIdentity) : Prop where
  row : s.bindings.lookup (sv.key r.identity) = some ⟨b, sv.bindingDigest b⟩
  parentId : b.parentId = r.identity.invocationId
  reference : b.parentTaskReference = r.reference
  request : effectRequestDigest sv.hash "run:workflow" (childRequest r.plan.fingerprint r.input) =
    .ok b.requestDigest
  source : b.workflowSource = r.plan.source
  child : identityOf b.childId s.runtime = some c
  fits : ChildFits b r.parent.record.identity r.plan c
  input : ∃ saved, readInput c s.runtime = .ok saved ∧ saved.canonical = r.input.canonical

theorem Answers.extends (h : Answers sv s r b c) (he : Extends s s') : Answers sv s' r b c :=
  { h with
    row := he.bindings _ _ h.row
    child := he.runtime.identity _ _ h.child
    input := by
      obtain ⟨saved, hread, hsame⟩ := h.input
      exact ⟨saved, readInput_grows he.runtime hread, hsame⟩ }

theorem reserve_answers {policy : ChildPolicy} {ids : DrawnIds}
    (h : (reserve sv policy r ids).run s = .ok (child, s')) :
    ∃ b, Answers sv s' r b child.record.identity ∧
      b.childId = child.record.identity.invocationId := by
  obtain ⟨hauth, hreserved⟩ := reserve_eq_ok h
  cases hreserved with
  | again b hrow hparent hreference hverifies =>
    obtain ⟨-, hid, hchild⟩ := getInvocation_identityOf hverifies.found
    exact ⟨b, ⟨hrow, hparent, hreference, hverifies.request, hverifies.source, hid,
      hverifies.fits, hverifies.input⟩, hchild.symm⟩
  | new digest rootId depth _ _ runtime _ hnew =>
    obtain ⟨-, hchild, hinput⟩ := hnew.grows
    have hruntime : s'.runtime = runtime := by rw [hnew.store]; rfl
    refine ⟨newBinding sv r digest rootId depth ids, ⟨hnew.lookup_self, hauth.invocationId.symm,
      rfl, hnew.request, rfl, ?_, ?_, r.input, ?_, rfl⟩, ?_⟩
    · rw [hnew.identity, hruntime]
      exact hchild
    · rw [hnew.identity]
      exact ⟨rfl, rfl, rfl, rfl, rfl, rfl, rfl, rfl⟩
    · rw [hnew.identity, hruntime]
      exact hinput
    · rw [hnew.identity]
      rfl

/-- An answered request is answered again, under whatever policy the caller has. -/
theorem Answers.reserve (h : Answers sv s r b c) (hb : Books sv s) (hauth : Authorised s r)
    (policy : ChildPolicy) (ids : DrawnIds) :
    ∃ child, (reserve sv policy r ids).run s = .ok (child, s) ∧
      child.record.identity.invocationId = b.childId := by
  obtain ⟨handle, hget, hid⟩ := hb.readable.get h.child
  have hverifies : Verifies sv s b r.parent r.plan r.input handle :=
    ⟨hb.rooted h.row, h.request, h.source, hget, by rw [hid]; exact h.fits,
      by rw [hid]; exact h.input⟩
  exact ⟨handle, reserve_again hauth h.row (hb.rows _ _ h.row).named h.parentId h.reference
    hverifies, by rw [hid]; exact hb.readable.invocationId h.child⟩

/-- **The child budget is exact.**  In every state that reservations reach, from any number of
parents and in any order: a binding's depth is its distance from its root and within the root's
limit; a root's counter is the number of its bindings and within its limit; one effect identity
has one child forever, which a repeated reservation answers; every binding passes
`verify_control`; and a reservation that raises changes nothing. -/
theorem child_budget_exact (hkey : ∀ identity, sv.key identity ≠ "") {s₀ : ChildStore}
    (h₀ : Initial s₀) (hrun : Steps sv sha256 s₀ s) :
    (∀ key row, s.bindings.lookup key = some row →
      Distance s row.binding.rootId row.binding.childId row.binding.depth ∧
      (∀ rootId n, Distance s rootId row.binding.childId n →
        rootId = row.binding.rootId ∧ n = row.binding.depth) ∧
      ∃ budget, s.budgets.lookup row.binding.rootId = some budget ∧
        row.binding.depth ≤ budget.maxDepth) ∧
    (∀ rootId budget, s.budgets.lookup rootId = some budget →
      budget.used = bindingCount rootId s ∧ budget.used ≤ budget.maxChildren) ∧
    (∀ policy r ids child s₁, Drawn s r ids → (reserve sv policy r ids).run s = .ok (child, s₁) →
      ∀ s₂, Steps sv sha256 s₁ s₂ →
        (∀ policy' ids', Authorised s₂ r →
          ∃ child', (reserve sv policy' r ids').run s₂ = .ok (child', s₂) ∧
            child'.record.identity.invocationId = child.record.identity.invocationId) ∧
        ∀ policy' r' ids' child' s₃, r'.identity = r.identity →
          (reserve sv policy' r' ids').run s₂ = .ok (child', s₃) →
          child'.record.identity.invocationId = child.record.identity.invocationId) ∧
    (∀ key row parent, s.bindings.lookup key = some row →
      identityOf row.binding.parentId s.runtime = some parent →
      ∃ child, (verifyControl sv row.binding parent).run s = .ok (child, s) ∧
        child.record.identity.invocationId = row.binding.childId) ∧
    ∀ policy r ids e, (reserve sv policy r ids).answer s = .error e →
      (reserve sv policy r ids).after s = s := by
  have hb : Books sv s := Steps.books hkey hrun h₀.books
  refine ⟨?_, ?_, ?_, fun key row parent hrow hp => hb.verifyControl hrow hp,
    fun _ _ _ _ herror => after_of_error herror⟩
  · intro key row hrow
    have hdistance := hb.distance hrow rfl
    exact ⟨hdistance, fun rootId n hn => hdistance.unique hb hn, (hb.rows key row hrow).budget⟩
  · intro rootId budget hrow
    obtain ⟨hsound, hused, -⟩ := hb.budgets rootId budget hrow
    exact ⟨hused, hsound.2.2.1⟩
  · intro policy r ids child s₁ hdrawn hreserve s₂ hsteps
    have hstep : Step sv sha256 s s₁ := Step.reserve hdrawn hreserve
    have hb₁ : Books sv s₁ := hstep.books hkey hb
    have hb₂ : Books sv s₂ := Steps.books hkey hsteps hb₁
    obtain ⟨b, hanswers, hchild⟩ := reserve_answers hreserve
    have hanswers₂ := hanswers.extends (Steps.extends hsteps)
    refine ⟨fun policy' ids' hauth => ?_, fun policy' r' ids' child' s₃ hid hreserve' => ?_⟩
    · rw [← hchild]
      exact hanswers₂.reserve hb₂ hauth policy' ids'
    · -- a later reservation of the identity finds the binding
      obtain ⟨-, hreserved⟩ := reserve_eq_ok hreserve'
      have hrow := hanswers₂.row
      rw [← hid] at hrow
      cases hreserved with
      | again _ hrow' _ _ hverifies =>
        rw [hrow] at hrow'
        cases hrow'
        obtain ⟨-, -, hfound⟩ := getInvocation_identityOf hverifies.found
        rw [hfound, hchild]
      | new _ _ _ _ _ _ _ hnew =>
        rw [hnew.absent] at hrow
        cases hrow

end Forever

/-! ## A root that reserves a child -/

namespace Root

def services : ChildServices where
  key identity := "key:" ++ identity.text
  hash _ _ := "request"
  bindingDigest _ := "binding"
  policyDigest _ _ _ _ := "policy"
  authority := none

def policy : ChildPolicy where
  maxDepth := 2
  maxChildren := 3
  depth_range := by decide
  children_range := by decide

def record : InvocationRecord where
  identity :=
    { invocationId := "root"
      engine := "engine"
      engineExecutionReference := "reference"
      userId := none
      sessionId := "session"
      workflowName := "parent"
      workflowVersion := "1.0.0"
      workflowFingerprint := "workflow"
      parentInvocationId := none
      parentTaskReference := none
      ownerPrincipal := none }
  status := .running
  output := .null
  error := .null

/-- Thirty-two hexadecimal digits. -/
def hex : String := "0123456789abcdef0123456789abcdef"

def lease : ExecutionLease where
  invocationId := "root"
  engine := "engine"
  workflowFingerprint := "workflow"
  owner := hex
  generation := 1
  expiresAt := 100
  named := by decide
  generation_pos := Nat.one_pos
  expires_pos := by norm_num
  owner_hex := by decide

/-- The root runs under its lease, and nothing is reserved yet. -/
def store : ChildStore where
  runtime :=
    { owners := ⟨10, (∅ : Table String OwnershipRow).put "root" ⟨"engine", "workflow", hex, 1, 100⟩⟩
      invocations := (∅ : Table String InvocationRow).put "root" ⟨⟨record, hex⟩, .running⟩
      inputs := ∅
      terminalTimes := ∅
      history := [⟨record, hex⟩] }
  budgets := ∅
  bindings := ∅

def request : Request where
  identity :=
    { invocationId := "root"
      workflowFingerprint := "workflow"
      taskReference := "/do/0/run"
      occurrence := [("run", 1)]
      operation := "run:workflow"
      named := by decide
      placed := by decide }
  parent := ⟨record, some ⟨record, hex⟩, some lease⟩
  plan :=
    { name := "child"
      version := "2.0.0"
      fingerprint := "child-workflow"
      source := .obj [("document", .obj [("name", .str "child"), ("version", .str "2.0.0")])]
      stated := ⟨_, _, rfl, rfl, by decide, by decide⟩ }
  input := .obj [("n", .int 1)]
  taskReference := none

def ids : DrawnIds := ⟨"child", "child-reference", "child-session", hex⟩

theorem key_ne (identity : EffectIdentity) : services.key identity ≠ "" := by
  intro h
  have hlength := congrArg String.length h
  simp [services] at hlength

theorem initial : Initial store where
  readable := by
    intro id row hrow
    have hput : ((∅ : Table String InvocationRow).put "root" ⟨⟨record, hex⟩, .running⟩).lookup id =
      some row := hrow
    rw [Table.lookup_put] at hput
    split at hput
    · next hid =>
        cases hput
        exact ⟨by decide, by decide, hid.symm, rfl⟩
    · cases hput
  budgets := rfl
  bindings := rfl

theorem drawn : Drawn store request ids where
  loaded := rfl
  invocationId := by decide
  revision := by decide
  sessionId := by decide

theorem commits : ((reserve services policy request ids).answer store).isOk = true := by
  decide +kernel

end Root

/-- The first child of a root is at distance one, and asking again answers the same child. -/
theorem child_budget_exact_first :
    ∃ child s, (reserve Root.services Root.policy Root.request Root.ids).run Root.store =
        .ok (child, s) ∧
      child.record.identity.invocationId = "child" ∧ Distance s "root" "child" 1 ∧
      ∃ again, (reserve Root.services Root.policy Root.request Root.ids).run s = .ok (again, s) ∧
        again.record.identity.invocationId = "child" := by
  obtain ⟨child, hanswer⟩ : ∃ child, (reserve Root.services Root.policy Root.request
      Root.ids).answer Root.store = .ok child := by
    have hok := Root.commits
    cases h : (reserve Root.services Root.policy Root.request Root.ids).answer Root.store with
    | error =>
      rw [h] at hok
      cases hok
    | ok child => exact ⟨child, rfl⟩
  obtain ⟨s, hreserve⟩ := answer_eq_ok.mp hanswer
  have hempty : Steps Root.services (fun _ => "") Root.store Root.store := .refl
  have hone : Steps Root.services (fun _ => "") Root.store s :=
    .single (Step.reserve Root.drawn hreserve)
  obtain ⟨-, -, hforever, -⟩ := child_budget_exact Root.key_ne Root.initial hempty
  obtain ⟨hdepth, -⟩ := child_budget_exact Root.key_ne Root.initial hone
  obtain ⟨hauth, hreserved⟩ := reserve_eq_ok hreserve
  cases hreserved with
  | again _ hrow => cases hrow
  | new _ _ _ _ _ _ _ hnew =>
    have hid : child.record.identity.invocationId = "child" := by
      rw [hnew.identity]
      rfl
    -- the reservation leaves the lease of the root alone
    have howners : s.runtime.owners = Root.store.runtime.owners := by
      obtain ⟨_, -, -, -, -, howners, -⟩ := createInTransaction_eq_ok hnew.created
      rw [hnew.store]
      exact howners
    have hauth' : Authorised s Root.request :=
      ⟨hauth.operation, hauth.invocationId, hauth.fingerprint, hauth.leased,
        by rw [howners]; exact hauth.guard⟩
    obtain ⟨again, hagain, hsame⟩ :=
      (hforever _ _ _ child s Root.drawn hreserve s .refl).1 Root.policy Root.ids hauth'
    have hdistance := (hdepth _ _ hnew.lookup_self).1
    refine ⟨child, s, hreserve, hid, ?_, again, hagain, hsame.trans hid⟩
    have hplaced := hnew.placed
    cases hplaced with
    | root => exact hdistance
    | nested _ _ hparent => cases hparent

end Children
