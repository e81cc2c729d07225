/-
# Concurrency limits

The other half of `traffic_policy.py`.  A request that is admitted counts in each of its scopes with
a concurrency limit until the application is done with it.  The counters are those of the requests
that run, whatever order they end in, and no scope ever runs more of them than its limit allows.
-/
import OpenWorkflowAgent.TrafficPolicy

namespace TrafficPolicy

/-- A request with these scopes counts against the concurrency limit of a key. -/
def occupies (key : ScopeKey) (scopes : List AdmissionScope) : Bool :=
  scopes.any fun scope => scope.key = key ∧ scope.concurrencyLimit.isSome

variable {policy : Policy} {scopes : List AdmissionScope} {active : Table ScopeKey ℕ}

/-- What is configured for a key is the same for every request. -/
theorem scope_unique {scope scope' : AdmissionScope} {request request' : Request}
    (h : scope ∈ scopesFor policy request) (h' : scope' ∈ scopesFor policy request')
    (hkey : scope.key = scope'.key) : scope = scope' := by
  simp only [scopesFor, List.cons_append, List.mem_cons, List.mem_append, Option.mem_toList,
    Option.map_eq_some_iff] at h h'
  rcases h with rfl | ⟨e, he, rfl⟩ | ⟨p, hp, rfl⟩ <;>
    rcases h' with rfl | ⟨e', he', rfl⟩ | ⟨p', hp', rfl⟩ <;>
    simp only [scopeFromLimit, reduceCtorEq, ScopeKey.endpoint.injEq, ScopeKey.principal.injEq]
      at hkey
  · rfl
  · rw [List.inj_on_of_nodup_map policy.endpoints_unique
      (List.mem_of_mem_filter (List.argmax_mem he)) (List.mem_of_mem_filter (List.argmax_mem he'))
      hkey]
  · rw [hkey, hp', Option.some.injEq] at hp
    rw [hkey, hp]

/-- A counter that is zero is not stored. -/
theorem lookup_counted (k key : ScopeKey) (n : ℕ) :
    ((if n = 0 then active.erase k else active.put k n).lookup key).getD 0 =
      if k = key then n else (active.lookup key).getD 0 := by
  by_cases hkey : k = key
  · subst hkey
    rw [if_pos rfl]
    split
    · next hzero =>
        rw [AList.lookup_erase, hzero]
        rfl
    · rw [Table.lookup_put_self]
      rfl
  · rw [if_neg hkey]
    split
    · rw [AList.lookup_erase_ne (Ne.symm hkey)]
    · rw [Table.lookup_put_ne (Ne.symm hkey)]

/-- Counting changes the counters of the scopes with a limit, each once. -/
theorem lookup_count (change : ℕ → ℕ) (hkeys : (scopes.map AdmissionScope.key).Nodup)
    (key : ScopeKey) : ((count change scopes active).lookup key).getD 0 =
      if occupies key scopes then change ((active.lookup key).getD 0)
      else (active.lookup key).getD 0 := by
  induction scopes generalizing active with
  | nil => rfl
  | cons scope rest ih =>
    rw [List.map_cons, List.nodup_cons] at hkeys
    show ((count change rest _).lookup key).getD 0 = _
    rw [ih hkeys.2]
    dsimp only
    by_cases hlimit : scope.concurrencyLimit.isSome = true
    · rw [if_pos hlimit, lookup_counted]
      by_cases hkey : scope.key = key
      · -- the keys are different, so no later scope has this one
        have hrest : occupies key rest = false := by
          simp only [occupies, List.any_eq_false, decide_eq_true_eq, not_and]
          exact fun s hs hsame => absurd (List.mem_map.mpr ⟨s, hs, hsame.trans hkey.symm⟩) hkeys.1
        have hall : occupies key (scope :: rest) = true := by simp [occupies, hkey, hlimit]
        rw [hrest, hall, if_pos hkey, hkey]
        rfl
      · simp [occupies, hkey]
    · simp [occupies, hlimit]

/-- The counters are those of the requests that run, and none is over its limit. -/
structure Balanced (policy : Policy) (m : Middleware) : Prop where
  keys : ∀ scopes ∈ m.running, (scopes.map AdmissionScope.key).Nodup
  counted : ∀ key, (m.activeByScope.lookup key).getD 0 = m.running.countP (occupies key)
  bounded : ∀ request, ∀ scope ∈ scopesFor policy request, ∀ limit,
    scope.concurrencyLimit = some limit →
      m.running.countP (occupies scope.key) ≤ limit.maxConcurrent

variable {m : Middleware}

theorem Balanced.admit (h : Balanced policy m) (request : Request) (buckets : Buckets)
    (hroom : fullScope m.activeByScope (scopesFor policy request) = none) :
    Balanced policy ⟨count (· + 1) (scopesFor policy request) m.activeByScope, buckets,
      scopesFor policy request :: m.running⟩ where
  keys := List.forall_mem_cons.mpr ⟨nodup_scopesFor policy request, h.keys⟩
  counted key := by
    rw [lookup_count _ (nodup_scopesFor policy request), h.counted, List.countP_cons]
    split <;> rfl
  bounded other scope hscope limit hlimit := by
    have hbefore := h.bounded other scope hscope limit hlimit
    rw [List.countP_cons]
    split
    · next hoccupied =>
        -- the scope is one of the request, and there was room in it
        obtain ⟨s, hs, hkey⟩ := List.any_eq_true.mp hoccupied
        obtain rfl := scope_unique hs hscope (of_decide_eq_true hkey).1
        have hfree := List.findSome?_eq_none_iff.mp hroom s hs
        rw [hlimit, h.counted] at hfree
        simpa [Nat.succ_le_iff] using hfree
    · exact hbefore

theorem Balanced.release (h : Balanced policy m) (index : ℕ) :
    Balanced policy (release index m) where
  keys scopes hscopes := h.keys scopes (List.mem_of_mem_eraseIdx hscopes)
  counted key := by
    show ((count (· - 1) ((m.running[index]?).getD []) m.activeByScope).lookup key).getD 0 =
      (m.running.eraseIdx index).countP (occupies key)
    by_cases hindex : index < m.running.length
    · rw [List.getElem?_eq_getElem hindex, Option.getD_some,
        lookup_count _ (h.keys _ (List.getElem_mem hindex)), h.counted,
        ← (List.getElem_cons_eraseIdx_perm hindex).countP_eq, List.countP_cons]
      split <;> simp
    · rw [List.getElem?_eq_none (not_lt.mp hindex), List.eraseIdx_of_length_le (not_lt.mp hindex)]
      exact h.counted key
  bounded request scope hscope limit hlimit :=
    ((List.eraseIdx_sublist ..).countP_le).trans (h.bounded request scope hscope limit hlimit)

theorem Balanced.call (h : Balanced policy m) (request : Request) (now : ℚ) :
    Balanced policy (call policy request now m).2 := by
  have hsame (buckets : Buckets) : Balanced policy { m with buckets } :=
    ⟨h.keys, h.counted, h.bounded⟩
  unfold TrafficPolicy.call
  split
  · exact h
  · simp only [admitLocked]
    cases hfull : fullScope m.activeByScope (scopesFor policy request) with
    | some limit => exact hsame _
    | none =>
      rcases checkRates now (scopesFor policy request) m.buckets with ⟨_ | limit, buckets⟩
      · exact h.admit request _ hfull
      · exact hsame _

end TrafficPolicy
