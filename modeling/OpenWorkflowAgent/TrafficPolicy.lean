/-
# Traffic policy

`TrafficPolicyMiddleware` of `traffic_policy.py`.  A request counts against the global scope, the
scope of the longest configured path that it is under, and that of its principal.  Each scope has a
token bucket that is refilled when it is looked at; a request is admitted when every scope has a
token, and then takes one of each.

`held` is what a bucket holds at an instant, looked at or not.  Looking does not change it, and
that is all a rejected request does; so the requests admitted in a window are paid for by what the
bucket held at its start and by the refill since.  Time and tokens are exact numbers.
-/
import OpenWorkflowAgent.Tables

namespace TrafficPolicy

/-! ## Configuration -/

/-- `RateLimitConfig`. -/
structure RateLimit where
  requestsPerSecond : ℚ
  burst : ℕ
  rate_pos : 0 < requestsPerSecond
  burst_pos : 0 < burst

/-- `ConcurrencyLimitConfig`. -/
structure ConcurrencyLimit where
  maxConcurrent : ℕ
  max_pos : 0 < maxConcurrent

/-- `TrafficLimitConfig`. -/
structure TrafficLimit where
  rateLimit : Option RateLimit
  concurrencyLimit : Option ConcurrencyLimit
  nonempty : rateLimit.isSome ∨ concurrencyLimit.isSome

/-- `TrafficEndpointLimitConfig`. -/
structure EndpointLimit extends TrafficLimit where
  path : String

/-- `TrafficPrincipalLimitConfig`. -/
structure PrincipalLimit extends TrafficLimit where
  principal : String

/-- `TrafficPolicyConfig`. -/
structure Policy where
  enabled : Bool
  rateLimit : RateLimit
  concurrencyLimit : ConcurrencyLimit
  endpointLimits : List EndpointLimit
  principalLimits : List PrincipalLimit
  endpoints_unique : (endpointLimits.map EndpointLimit.path).Nodup
  principals_unique : (principalLimits.map PrincipalLimit.principal).Nodup

/-! ## Scopes -/

/-- The keys `global`, `endpoint:<path>` and `principal:<name>`. -/
inductive ScopeKey where
  | global
  | endpoint (path : String)
  | principal (name : String)
  deriving DecidableEq

/-- `_AdmissionScope`. -/
structure AdmissionScope where
  key : ScopeKey
  rateLimit : Option RateLimit
  concurrencyLimit : Option ConcurrencyLimit

/-- What the middleware reads off the scope of a connection. -/
structure Request where
  isHttp : Bool
  path : String
  principal : Option String

def EndpointLimit.covers (limit : EndpointLimit) (path : String) : Bool :=
  limit.path = "/" ∨ path = limit.path ∨ (limit.path ++ "/").toList <+: path.toList

/-- `_endpoint_limit`: the longest path, and the first of them. -/
def endpointLimit (policy : Policy) (path : String) : Option EndpointLimit :=
  (policy.endpointLimits.filter fun limit => limit.covers path).argmax fun limit =>
    limit.path.length

/-- `scope.get("owa.principal") or "anonymous"`. -/
def Request.principalName (request : Request) : String :=
  match request.principal with
  | some name => if name = "" then "anonymous" else name
  | none => "anonymous"

def principalLimit (policy : Policy) (name : String) : Option PrincipalLimit :=
  policy.principalLimits.find? fun limit => limit.principal = name

/-- `_scope_from_limit`. -/
def scopeFromLimit (key : ScopeKey) (limit : TrafficLimit) : AdmissionScope :=
  ⟨key, limit.rateLimit, limit.concurrencyLimit⟩

/-- `_scopes_for`. -/
def scopesFor (policy : Policy) (request : Request) : List AdmissionScope :=
  ⟨.global, some policy.rateLimit, some policy.concurrencyLimit⟩ ::
    ((endpointLimit policy request.path).map fun limit =>
      scopeFromLimit (.endpoint limit.path) limit.toTrafficLimit).toList ++
    ((principalLimit policy request.principalName).map fun limit =>
      scopeFromLimit (.principal request.principalName) limit.toTrafficLimit).toList

/-! ## Token buckets -/

/-- `_TokenBucket`. -/
structure TokenBucket where
  tokens : ℚ
  lastRefill : ℚ

abbrev Buckets := Table ScopeKey TokenBucket

/-- The bucket of a scope as it is when it is looked at. -/
def refill (limit : RateLimit) (now : ℚ) : Option TokenBucket → TokenBucket
  | none => ⟨limit.burst, now⟩
  | some bucket =>
    ⟨min limit.burst
      (bucket.tokens + max 0 (now - bucket.lastRefill) * limit.requestsPerSecond), now⟩

/-- What a scope holds at an instant. -/
def held (limit : RateLimit) (now : ℚ) (key : ScopeKey) (buckets : Buckets) : ℚ :=
  (refill limit now (buckets.lookup key)).tokens

/-- The loop of `_admit_locked` over `_has_rate_token_locked`: the first limit without a token, and
the buckets that were looked at. -/
def checkRates (now : ℚ) : List AdmissionScope → Buckets → Option RateLimit × Buckets
  | [], buckets => (none, buckets)
  | scope :: rest, buckets =>
    match scope.rateLimit with
    | none => checkRates now rest buckets
    | some limit =>
      let bucket := refill limit now (buckets.lookup scope.key)
      if 1 ≤ bucket.tokens then checkRates now rest (buckets.put scope.key bucket)
      else (some limit, buckets.put scope.key bucket)

def TokenBucket.pay (bucket : TokenBucket) : TokenBucket :=
  { bucket with tokens := bucket.tokens - 1 }

/-- A scope with a rate gives a token. -/
def consumeOne (buckets : Buckets) (scope : AdmissionScope) : Buckets :=
  if scope.rateLimit.isSome then
    buckets.updateWhere scope.key (fun _ => true) TokenBucket.pay
  else buckets

def consume (scopes : List AdmissionScope) (buckets : Buckets) : Buckets :=
  scopes.foldl consumeOne buckets

/-! ## The middleware -/

/-- What was exceeded. -/
inductive Rejection where
  | rate (limit : RateLimit)
  | concurrency (limit : ConcurrencyLimit)

/-- What becomes of a request. -/
inductive Outcome where
  | unlimited
  | admitted
  | rejected (rejection : Rejection)

/-- The state of the middleware, and the scopes of the requests that are in the application. -/
structure Middleware where
  activeByScope : Table ScopeKey ℕ
  buckets : Buckets
  running : List (List AdmissionScope)

def fullScope (active : Table ScopeKey ℕ) (scopes : List AdmissionScope) :
    Option ConcurrencyLimit :=
  scopes.findSome? fun scope => scope.concurrencyLimit.filter fun limit =>
    limit.maxConcurrent ≤ (active.lookup scope.key).getD 0

/-- `_admit_locked`. -/
def admitLocked (active : Table ScopeKey ℕ) (now : ℚ) (scopes : List AdmissionScope)
    (buckets : Buckets) : Option Rejection × Buckets :=
  match fullScope active scopes with
  | some limit => (some (.concurrency limit), buckets)
  | none =>
    match checkRates now scopes buckets with
    | (some limit, buckets) => (some (.rate limit), buckets)
    | (none, buckets) => (none, consume scopes buckets)

/-- Count a request in, or out, of the scopes with a concurrency limit. -/
def count (change : ℕ → ℕ) (scopes : List AdmissionScope) (active : Table ScopeKey ℕ) :
    Table ScopeKey ℕ :=
  scopes.foldl (fun active scope =>
    if scope.concurrencyLimit.isSome then
      let next := change ((active.lookup scope.key).getD 0)
      if next = 0 then active.erase scope.key else active.put scope.key next
    else active) active

/-- A request comes in, or the application is done with one of those it runs. -/
inductive Event where
  | request (request : Request) (now : ℚ)
  | finished (index : ℕ)

/-- `__call__` up to the application. -/
def call (policy : Policy) (request : Request) (now : ℚ) (m : Middleware) :
    Outcome × Middleware :=
  if request.isHttp = false ∨ policy.enabled = false then (.unlimited, m)
  else
    let scopes := scopesFor policy request
    match admitLocked m.activeByScope now scopes m.buckets with
    | (some rejection, buckets) => (.rejected rejection, { m with buckets })
    | (none, buckets) =>
      (.admitted, ⟨count (· + 1) scopes m.activeByScope, buckets, scopes :: m.running⟩)

/-- The rest of `__call__`. -/
def release (index : ℕ) (m : Middleware) : Middleware :=
  { m with
    activeByScope := count (· - 1) ((m.running[index]?).getD []) m.activeByScope
    running := m.running.eraseIdx index }

def step (policy : Policy) (m : Middleware) : Event → Middleware
  | .request request now => (call policy request now m).2
  | .finished index => release index m

def run (policy : Policy) (m : Middleware) (events : List Event) : Middleware :=
  events.foldl (step policy) m

def initial : Middleware := ⟨∅, ∅, []⟩

def Event.instant? : Event → Option ℚ
  | .request _ now => some now
  | .finished _ => none

/-- The clock does not go back. -/
def Monotone (events : List Event) : Prop :=
  (events.filterMap Event.instant?).Pairwise (· ≤ ·)

def counts (policy : Policy) (key : ScopeKey) (request : Request) : Bool :=
  key ∈ (scopesFor policy request).map AdmissionScope.key

def Outcome.isAdmitted : Outcome → Bool
  | .admitted => true
  | _ => false

/-- Whether an event is the admission of a request that counts against a scope. -/
def takes (policy : Policy) (key : ScopeKey) (m : Middleware) : Event → Bool
  | .request request now =>
    counts policy key request && (call policy request now m).1.isAdmitted
  | .finished _ => false

/-- How many requests that count against a scope are admitted in a window. -/
def admittedIn (policy : Policy) (key : ScopeKey) (s t : ℚ) : Middleware → List Event → ℕ
  | _, [] => 0
  | m, event :: rest =>
    (if takes policy key m event ∧ ∃ now ∈ event.instant?, s ≤ now ∧ now ≤ t then 1 else 0) +
    admittedIn policy key s t (step policy m event) rest

def Configured (policy : Policy) (limit : RateLimit) : ScopeKey → Prop
  | .global => policy.rateLimit = limit
  | .endpoint path => ∃ e ∈ policy.endpointLimits, e.path = path ∧ e.rateLimit = some limit
  | .principal name => ∃ p ∈ policy.principalLimits, p.principal = name ∧ p.rateLimit = some limit

/-! ## What a scope holds -/

variable {scope : AdmissionScope} {m : Middleware} {events : List Event}

section Held

variable {limit : RateLimit} {now : ℚ} {key : ScopeKey} {scopes : List AdmissionScope}
  {buckets : Buckets}

variable (limit now) in
theorem refill_le (bucket : Option TokenBucket) :
    (refill limit now bucket).tokens ≤ limit.burst := by
  cases bucket with
  | none => exact le_rfl
  | some bucket => exact min_le_left _ _

variable (limit now) in
theorem refill_lastRefill (bucket : Option TokenBucket) :
    (refill limit now bucket).lastRefill = now := by
  cases bucket <;> rfl

/-- A second look at the same instant adds nothing. -/
theorem refill_now {bucket : TokenBucket} (hlast : bucket.lastRefill = now)
    (hle : bucket.tokens ≤ limit.burst) : refill limit now (some bucket) = bucket := by
  subst hlast
  simp [refill, hle]

/-- In exact arithmetic nothing but the refill is gained over time. -/
theorem held_later {later : ℚ} (h : now ≤ later) :
    held limit later key buckets ≤
      held limit now key buckets + limit.requestsPerSecond * (later - now) := by
  have hrate := limit.rate_pos
  have hgain : 0 ≤ limit.requestsPerSecond * (later - now) :=
    mul_nonneg hrate.le (sub_nonneg.mpr h)
  unfold held
  cases buckets.lookup key with
  | none => exact le_add_of_nonneg_right hgain
  | some bucket =>
    have helapsed : max 0 (later - bucket.lastRefill) ≤
        max 0 (now - bucket.lastRefill) + (later - now) := by
      rcases le_total later bucket.lastRefill with hl | hl
      · rw [max_eq_left (by linarith)]
        have := le_max_left 0 (now - bucket.lastRefill)
        linarith
      · rw [max_eq_right (by linarith)]
        have := le_max_right 0 (now - bucket.lastRefill)
        linarith
    have hmul := mul_le_mul_of_nonneg_right helapsed hrate.le
    show min _ _ ≤ min _ _ + _
    rw [← min_add_add_right]
    refine le_min (le_trans (min_le_left _ _) ?_) (le_trans (min_le_right _ _) ?_)
    · linarith
    · linarith

theorem held_mono {later : ℚ} (h : now ≤ later) :
    held limit now key buckets ≤ held limit later key buckets := by
  unfold held
  cases buckets.lookup key with
  | none => exact le_rfl
  | some bucket =>
    have helapsed : max 0 (now - bucket.lastRefill) ≤ max 0 (later - bucket.lastRefill) :=
      max_le_max le_rfl (sub_le_sub_right h _)
    have hmul := mul_le_mul_of_nonneg_right helapsed limit.rate_pos.le
    exact min_le_min le_rfl (add_le_add_right hmul _)

/-- The scopes of a request that have this key have this rate. -/
def Agrees (limit : RateLimit) (key : ScopeKey) (scopes : List AdmissionScope) : Prop :=
  ∀ scope ∈ scopes, scope.key = key → scope.rateLimit = some limit

variable (now buckets) in
theorem held_checkRates (h : Agrees limit key scopes) :
    held limit now key (checkRates now scopes buckets).2 = held limit now key buckets := by
  induction scopes generalizing buckets with
  | nil => rfl
  | cons scope rest ih =>
    have hrest : Agrees limit key rest := fun s hs => h s (List.mem_cons_of_mem _ hs)
    have hput : ∀ l, scope.rateLimit = some l →
        held limit now key
          (buckets.put scope.key (refill l now (buckets.lookup scope.key))) =
        held limit now key buckets := by
      intro l hl
      by_cases hkey : scope.key = key
      · obtain rfl : l = limit := by
          have := h scope List.mem_cons_self hkey
          exact Option.some.inj (hl.symm.trans this)
        unfold held
        rw [hkey, Table.lookup_put_self, refill_now (refill_lastRefill _ _ _) (refill_le _ _ _)]
      · unfold held
        rw [Table.lookup_put_ne (Ne.symm hkey)]
    unfold checkRates
    cases hl : scope.rateLimit with
    | none => exact ih _ hrest
    | some l =>
      dsimp only
      split
      · exact (ih _ hrest).trans (hput l hl)
      · exact hput l hl

/-- The scope that a request is rejected for is out of tokens. -/
theorem checkRates_some {l : RateLimit} (hagree : ∀ scope ∈ scopes, ∀ l,
      scope.rateLimit = some l → Agrees l scope.key scopes)
    (h : (checkRates now scopes buckets).1 = some l) :
    ∃ scope ∈ scopes, scope.rateLimit = some l ∧ held l now scope.key buckets < 1 := by
  induction scopes generalizing buckets with
  | nil => cases h
  | cons scope rest ih =>
    have hrest : ∀ s ∈ rest, ∀ l, s.rateLimit = some l → Agrees l s.key rest :=
      fun s hs l hl s' hs' => hagree s (List.mem_cons_of_mem _ hs) l hl s'
        (List.mem_cons_of_mem _ hs')
    unfold checkRates at h
    cases hl : scope.rateLimit with
    | none =>
      rw [hl] at h
      obtain ⟨found, hmem, hfound⟩ := ih hrest h
      exact ⟨found, List.mem_cons_of_mem _ hmem, hfound⟩
    | some first =>
      rw [hl] at h
      dsimp only at h
      split at h
      · rename_i htoken
        obtain ⟨found, hmem, hrate, hheld⟩ := ih hrest h
        refine ⟨found, List.mem_cons_of_mem _ hmem, hrate, ?_⟩
        -- looking at the first scope has not changed what the one found holds
        have hfirst : Agrees l found.key [scope] := fun s hs =>
          hagree found (List.mem_cons_of_mem _ hmem) l hrate s
            (List.mem_singleton.mp hs ▸ List.mem_cons_self)
        have hlook := held_checkRates now buckets hfirst
        simp only [checkRates, hl, htoken, if_true] at hlook
        rwa [hlook] at hheld
      · rename_i htoken
        refine ⟨scope, List.mem_cons_self, ?_, not_le.mp ?_⟩
        · rw [hl, Option.some.inj h]
        · rwa [← Option.some.inj h]

theorem lookup_checkRates_ne (hkey : key ∉ scopes.map AdmissionScope.key) :
    (checkRates now scopes buckets).2.lookup key = buckets.lookup key := by
  induction scopes generalizing buckets with
  | nil => rfl
  | cons scope rest ih =>
    rw [List.map_cons, List.mem_cons, not_or] at hkey
    unfold checkRates
    cases scope.rateLimit with
    | none => exact ih hkey.2
    | some l =>
      dsimp only
      split
      · rw [ih hkey.2, Table.lookup_put_ne hkey.1]
      · exact Table.lookup_put_ne hkey.1

/-- When nothing is missing, the buckets of a request have been refilled and hold a token. -/
theorem checkRates_none (h : Agrees limit key scopes)
    (hkeys : (scopes.map AdmissionScope.key).Nodup) (hmem : key ∈ scopes.map AdmissionScope.key)
    (hnone : (checkRates now scopes buckets).1 = none) :
    1 ≤ held limit now key buckets ∧
      (checkRates now scopes buckets).2.lookup key =
        some (refill limit now (buckets.lookup key)) := by
  induction scopes generalizing buckets with
  | nil => cases hmem
  | cons scope rest ih =>
    rw [List.map_cons, List.nodup_cons] at hkeys
    have hrest : Agrees limit key rest := fun s hs => h s (List.mem_cons_of_mem _ hs)
    by_cases hkey : scope.key = key
    · have hl := h scope List.mem_cons_self hkey
      unfold checkRates at hnone ⊢
      simp only [hl] at hnone ⊢
      split at hnone
      · rename_i htoken
        rw [if_pos htoken, lookup_checkRates_ne (hkey ▸ hkeys.1), hkey, Table.lookup_put_self]
        exact ⟨hkey ▸ htoken, rfl⟩
      · cases hnone
    · have hin : key ∈ rest.map AdmissionScope.key := by
        rw [List.map_cons, List.mem_cons] at hmem
        exact hmem.resolve_left (Ne.symm hkey)
      unfold checkRates at hnone ⊢
      cases hl : scope.rateLimit with
      | none =>
        rw [hl] at hnone
        exact ih hrest hkeys.2 hin hnone
      | some l =>
        simp only [hl] at hnone ⊢
        split at hnone
        · rename_i htoken
          have := ih hrest hkeys.2 hin hnone
          rw [held, Table.lookup_put_ne (Ne.symm hkey)] at this
          rwa [if_pos htoken]
        · cases hnone

theorem lookup_consumeOne_ne (hkey : key ≠ scope.key) :
    (consumeOne buckets scope).lookup key = buckets.lookup key := by
  unfold consumeOne
  split
  · exact Table.lookup_updateWhere_ne hkey
  · rfl

theorem lookup_consume_ne (hkey : key ∉ scopes.map AdmissionScope.key) :
    (consume scopes buckets).lookup key = buckets.lookup key := by
  induction scopes generalizing buckets with
  | nil => rfl
  | cons scope rest ih =>
    rw [List.map_cons, List.mem_cons, not_or] at hkey
    show (consume rest (consumeOne buckets scope)).lookup key = _
    rw [ih hkey.2, lookup_consumeOne_ne hkey.1]

theorem lookup_consume (h : Agrees limit key scopes)
    (hkeys : (scopes.map AdmissionScope.key).Nodup)
    (hmem : key ∈ scopes.map AdmissionScope.key) :
    (consume scopes buckets).lookup key = (buckets.lookup key).map TokenBucket.pay := by
  induction scopes generalizing buckets with
  | nil => cases hmem
  | cons scope rest ih =>
    rw [List.map_cons, List.nodup_cons] at hkeys
    show (consume rest (consumeOne buckets scope)).lookup key = _
    by_cases hkey : scope.key = key
    · rw [lookup_consume_ne (hkey ▸ hkeys.1), consumeOne, h scope List.mem_cons_self hkey, hkey]
      exact Table.lookup_updateWhere_self
    · have hin := (List.mem_cons.mp (List.map_cons ▸ hmem)).resolve_left (Ne.symm hkey)
      rw [ih (fun s hs => h s (List.mem_cons_of_mem _ hs)) hkeys.2 hin,
        lookup_consumeOne_ne (Ne.symm hkey)]

end Held

/-! ## Requests -/

section Requests

variable {policy : Policy} {limit : RateLimit} {key : ScopeKey}

theorem mem_scopesFor {request : Request} (h : scope ∈ scopesFor policy request)
    (hkey : scope.key = key) (hlimit : Configured policy limit key) :
    scope.rateLimit = some limit := by
  subst hkey
  simp only [scopesFor, List.cons_append, List.mem_cons, List.mem_append, Option.mem_toList,
    Option.map_eq_some_iff] at h
  rcases h with rfl | ⟨e, he, rfl⟩ | ⟨p, hp, rfl⟩
  · exact congrArg some hlimit
  · obtain ⟨e', he', hpath, hrate⟩ := hlimit
    have hmem := List.mem_of_mem_filter (List.argmax_mem he)
    rw [List.inj_on_of_nodup_map policy.endpoints_unique he' hmem hpath] at hrate
    exact hrate
  · obtain ⟨p', hp', hname, hrate⟩ := hlimit
    have hfound : p.principal = request.principalName := by
      simpa using List.find?_some hp
    rw [List.inj_on_of_nodup_map policy.principals_unique hp' (List.mem_of_find?_eq_some hp)
      (hname.trans hfound.symm)] at hrate
    exact hrate

variable (policy) in
theorem nodup_scopesFor (request : Request) :
    ((scopesFor policy request).map AdmissionScope.key).Nodup := by
  unfold scopesFor
  cases endpointLimit policy request.path <;>
    cases principalLimit policy request.principalName <;> simp [scopeFromLimit]

/-- The rate of a scope of a request is the one that is configured for its key. -/
theorem configured_scopesFor {request : Request} (h : scope ∈ scopesFor policy request)
    (hrate : scope.rateLimit = some limit) : Configured policy limit scope.key := by
  simp only [scopesFor, List.cons_append, List.mem_cons, List.mem_append, Option.mem_toList,
    Option.map_eq_some_iff] at h
  rcases h with rfl | ⟨e, he, rfl⟩ | ⟨p, hp, rfl⟩
  · exact Option.some.inj hrate
  · exact ⟨e, List.mem_of_mem_filter (List.argmax_mem he), rfl, hrate⟩
  · exact ⟨p, List.mem_of_find?_eq_some hp, by simpa using List.find?_some hp, hrate⟩

/-- A request takes a token of each of its scopes when it is admitted, and otherwise none. -/
theorem held_call (hlimit : Configured policy limit key) (request : Request) (now : ℚ)
    (m : Middleware) :
    if takes policy key m (.request request now) then
      1 ≤ held limit now key m.buckets ∧
        held limit now key (call policy request now m).2.buckets =
          held limit now key m.buckets - 1
    else held limit now key (call policy request now m).2.buckets =
      held limit now key m.buckets := by
  have hagree : Agrees limit key (scopesFor policy request) :=
    fun scope hscope hkey => mem_scopesFor hscope hkey hlimit
  have hlook := held_checkRates now m.buckets hagree
  unfold takes call
  by_cases hfree : request.isHttp = false ∨ policy.enabled = false
  · simp [if_pos hfree, Outcome.isAdmitted]
  simp only [if_neg hfree, admitLocked]
  cases fullScope m.activeByScope (scopesFor policy request) with
  | some full => simp [Outcome.isAdmitted]
  | none =>
    dsimp only
    rcases hrates : checkRates now (scopesFor policy request) m.buckets with ⟨_ | l, buckets⟩
    · rw [hrates] at hlook
      by_cases hmem : counts policy key request = true
      · have hkeys := nodup_scopesFor policy request
        have hcounted := of_decide_eq_true hmem
        obtain ⟨htoken, hlookup⟩ := checkRates_none hagree hkeys hcounted
          (congrArg Prod.fst hrates)
        rw [hrates] at hlookup
        simp only [hmem, Outcome.isAdmitted, Bool.and_self, if_true]
        refine ⟨htoken, ?_⟩
        -- the bucket was refilled at this instant, so that the next look adds nothing
        have hpaid : (refill limit now (m.buckets.lookup key)).pay.tokens ≤ limit.burst := by
          have hle := refill_le limit now (m.buckets.lookup key)
          exact (sub_le_self _ zero_le_one).trans hle
        have hlast : (refill limit now (m.buckets.lookup key)).pay.lastRefill = now :=
          refill_lastRefill limit now _
        rw [held, lookup_consume hagree hkeys hcounted, hlookup, Option.map_some,
          refill_now hlast hpaid]
        rfl
      · have hout := of_decide_eq_false (Bool.not_eq_true _ ▸ hmem)
        simp only [hmem, Bool.false_and, Bool.false_eq_true, if_false]
        rw [held, lookup_consume_ne hout]
        exact hlook
    · rw [hrates] at hlook
      simpa [Outcome.isAdmitted] using hlook

/-- A window that is over when the first request comes in. -/
theorem admittedIn_eq_zero {s t : ℚ} (h : ∀ now ∈ events.filterMap Event.instant?, t < now) :
    admittedIn policy key s t m events = 0 := by
  induction events generalizing m with
  | nil => rfl
  | cons event rest ih =>
    have hrest : ∀ now ∈ rest.filterMap Event.instant?, t < now := by
      intro now hnow
      obtain ⟨e, he, hinstant⟩ := List.mem_filterMap.mp hnow
      exact h now (List.mem_filterMap.mpr ⟨e, List.mem_cons_of_mem _ he, hinstant⟩)
    unfold admittedIn
    rw [ih hrest, if_neg]
    rintro ⟨-, now, hinstant, -, hle⟩
    exact absurd (h now (List.mem_filterMap.mpr ⟨event, List.mem_cons_self, hinstant⟩))
      (not_lt.mpr hle)

/-- The requests that are admitted from an instant on are paid for by what the scope holds then and
by the refill. -/
theorem admittedIn_le_held (hlimit : Configured policy limit key) {s t c : ℚ} (hct : c ≤ t)
    (hclock : Monotone events) (hfrom : ∀ now ∈ events.filterMap Event.instant?, c ≤ now)
    (hheld : 0 ≤ held limit c key m.buckets) : (admittedIn policy key s t m events : ℚ) ≤
      held limit c key m.buckets + limit.requestsPerSecond * (t - c) := by
  induction events generalizing m c with
  | nil =>
    have hgain := mul_nonneg limit.rate_pos.le (sub_nonneg.mpr hct)
    simp only [admittedIn, Nat.cast_zero]
    linarith
  | cons event rest ih =>
    cases event with
    | finished index =>
      have hrest : (admittedIn policy key s t (release index m) rest : ℚ) ≤
          held limit c key m.buckets + _ := ih hct hclock hfrom hheld
      simpa [admittedIn, takes, step] using hrest
    | request request now =>
      obtain ⟨hlater, hclock'⟩ := List.pairwise_cons.mp hclock
      have hcnow : c ≤ now := hfrom now List.mem_cons_self
      rcases lt_or_ge t now with hover | hnow
      · rw [admittedIn_eq_zero (fun later hmem => ?_)]
        · have hgain := mul_nonneg limit.rate_pos.le (sub_nonneg.mpr hct)
          rw [Nat.cast_zero]
          linarith
        · rcases List.mem_cons.mp hmem with rfl | hmem
          · exact hover
          · exact hover.trans_le (hlater later hmem)
      · have hgain : held limit now key m.buckets ≤ _ := held_later hcnow
        have hmono : _ ≤ held limit now key m.buckets := hheld.trans (held_mono hcnow)
        have hcall := held_call hlimit request now m
        have hsplit : limit.requestsPerSecond * (t - c) =
            limit.requestsPerSecond * (now - c) + limit.requestsPerSecond * (t - now) := by
          ring
        unfold admittedIn
        push_cast
        split at hcall
        · obtain ⟨htoken, heq⟩ := hcall
          have hrest := ih hnow (m := (call policy request now m).2) hclock' hlater
            (by rw [heq]; linarith)
          have hone : ((if takes policy key m (.request request now) ∧
              ∃ i ∈ (Event.request request now).instant?, s ≤ i ∧ i ≤ t then 1 else 0 : ℕ)
              : ℚ) ≤ 1 := by split <;> norm_num
          simp only [step]
          push_cast at hone
          linarith
        · rename_i hfree
          have hrest := ih hnow (m := (call policy request now m).2) hclock' hlater
            (by rw [hcall]; linarith)
          rw [if_neg (fun h => hfree h.1)]
          simp only [step]
          linarith

/-- In every window a scope admits no more than its burst and the refill. -/
theorem admittedIn_le (hlimit : Configured policy limit key) {s t c : ℚ} (hst : s ≤ t)
    (hclock : Monotone events) (hfrom : ∀ now ∈ events.filterMap Event.instant?, c ≤ now)
    (hheld : 0 ≤ held limit c key m.buckets) : (admittedIn policy key s t m events : ℚ) ≤
      limit.burst + limit.requestsPerSecond * (t - s) := by
  have hgain := mul_nonneg limit.rate_pos.le (sub_nonneg.mpr hst)
  induction events generalizing m c with
  | nil =>
    simp only [admittedIn, Nat.cast_zero]
    positivity
  | cons event rest ih =>
    cases event with
    | finished index =>
      have := ih (m := release index m) hclock hfrom hheld
      simpa [admittedIn, takes, step] using this
    | request request now =>
      obtain ⟨hlater, hclock'⟩ := List.pairwise_cons.mp hclock
      have hcnow : c ≤ now := hfrom now List.mem_cons_self
      have hnow : 0 ≤ held limit now key m.buckets := hheld.trans (held_mono hcnow)
      rcases lt_or_ge now s with hbefore | hin
      · have hcall := held_call hlimit request now m
        have hrest := ih (m := (call policy request now m).2) hclock' hlater (by
          split at hcall
          · rw [hcall.2]
            linarith [hcall.1]
          · rw [hcall]
            exact hnow)
        unfold admittedIn
        rw [if_neg]
        · simpa [step] using hrest
        · rintro ⟨-, i, hi, hs, -⟩
          exact absurd hs (not_le.mpr (Option.some.inj hi ▸ hbefore))
      · rcases lt_or_ge t now with hover | hle
        · rw [admittedIn_eq_zero (fun later hmem => ?_)]
          · rw [Nat.cast_zero]
            positivity
          · rcases List.mem_cons.mp hmem with rfl | hmem
            · exact hover
            · exact hover.trans_le (hlater later hmem)
        · have hall : ∀ later ∈ (Event.request request now :: rest).filterMap
              Event.instant?, now ≤ later := by
            intro later hmem
            rcases List.mem_cons.mp hmem with rfl | hmem
            · exact le_rfl
            · exact hlater later hmem
          have := admittedIn_le_held (s := s) hlimit hle hclock hall hnow
          have hburst : held limit now key m.buckets ≤ limit.burst := refill_le _ _ _
          have hshorter := mul_le_mul_of_nonneg_left (sub_le_sub_left hin t)
            limit.rate_pos.le
          linarith

end Requests

/-- In every window a scope admits at most its burst and the refill of the window; a rejected
request leaves what every scope holds, and is rejected for its rate by a scope that holds less than
a token. -/
theorem rate_limits_hold_in_every_window (policy : Policy) (events : List Event)
    (hclock : Monotone events) :
    (∀ key limit, Configured policy limit key → ∀ s t, s ≤ t →
      (admittedIn policy key s t initial events : ℚ) ≤
        limit.burst + limit.requestsPerSecond * (t - s)) ∧
    ∀ request now rejection,
      (call policy request now (run policy initial events)).1 = .rejected rejection →
      (∀ key limit, Configured policy limit key →
        held limit now key (call policy request now (run policy initial events)).2.buckets =
          held limit now key (run policy initial events).buckets) ∧
      ∀ limit, rejection = .rate limit → ∃ scope ∈ scopesFor policy request,
        scope.rateLimit = some limit ∧
          held limit now scope.key (run policy initial events).buckets < 1 := by
  refine ⟨fun key limit hlimit s t hst => ?_, fun request now rejection hrejected => ⟨?_, ?_⟩⟩
  · obtain ⟨c, hc⟩ : ∃ c, ∀ now ∈ events.filterMap Event.instant?, c ≤ now := by
      unfold Monotone at hclock
      cases hinstants : events.filterMap Event.instant? with
      | nil => exact ⟨0, fun now hnow => by cases hnow⟩
      | cons first rest =>
        rw [hinstants] at hclock
        refine ⟨first, fun now hnow => ?_⟩
        rcases List.mem_cons.mp hnow with rfl | hnow
        · exact le_rfl
        · exact (List.pairwise_cons.mp hclock).1 now hnow
    exact admittedIn_le hlimit hst hclock hc (Nat.cast_nonneg limit.burst)
  · intro key limit hlimit
    have hcall := held_call hlimit request now (run policy initial events)
    rwa [if_neg (by simp [takes, hrejected, Outcome.isAdmitted])] at hcall
  · rintro limit rfl
    generalize run policy initial events = m at hrejected
    unfold call at hrejected
    split at hrejected
    · cases hrejected
    · simp only [admitLocked] at hrejected
      cases hfull : fullScope m.activeByScope (scopesFor policy request) with
      | some full =>
        rw [hfull] at hrejected
        cases hrejected
      | none =>
        rw [hfull] at hrejected
        rcases hrates : checkRates now (scopesFor policy request) m.buckets with ⟨_ | l, buckets⟩
        · rw [hrates] at hrejected
          cases hrejected
        · rw [hrates] at hrejected
          cases hrejected
          refine checkRates_some (fun scope hscope l hl s hs hkey => ?_)
            (congrArg Prod.fst hrates)
          exact mem_scopesFor hs hkey (configured_scopesFor hscope hl)

/-- One request a second for everyone. -/
def oneASecond : Policy :=
  ⟨true, ⟨1, 1, by norm_num, by norm_num⟩, ⟨2, by norm_num⟩, [], [], List.nodup_nil,
    List.nodup_nil⟩

theorem oneASecond_window :
    (admittedIn oneASecond .global 0 1 initial
      [.request ⟨true, "/", none⟩ 0, .request ⟨true, "/", none⟩ 0] : ℚ) ≤ 1 + 1 * (1 - 0) :=
  (rate_limits_hold_in_every_window oneASecond
    [.request ⟨true, "/", none⟩ 0, .request ⟨true, "/", none⟩ 0]
    (by simp [Monotone, Event.instant?])).1 .global _ rfl 0 1 (by norm_num) |>.trans
      (by norm_num [oneASecond])

end TrafficPolicy
