import PrivacySuite.Rbac.RequestThreads

/-!
# Invalidating the cache of a process

A handler commits a mutation and then drops entries of the process cache. Whether
that is final depends on what is under way at the time: a result resolved before the
mutation may still be on its way into the cache. `Carrier` lists the places such a
result can be in. When there is none as the invalidation returns, there never will be
(`Carrier.of_step`), and when there is one, some schedule serves it
(`Carrier.canServeOld`).
-/

namespace PrivacySuite.Rbac

open Go Concurrency PermissionCodec ResolverState Function

namespace MemoryCache

variable {c : MemoryCache}

variable {key userID orgID : String} {p : ResolvedPermissions}

theorem lookup_get_isSome (now : Time) (userID orgID : String)
    (h : ((c.get now userID orgID).2.entries.lookup key).isSome) :
    (c.entries.lookup key).isSome := by
  unfold get at h
  split at h
  · exact h
  · rename_i entry hentry
    split at h
    · exact h
    · by_cases hkey : key = cacheKey userID orgID
      · rw [hkey, hentry]
        rfl
      · rwa [lookup_mapSet_of_ne _ _ hkey] at h

theorem lookup_set_isSome (now : Time) (visit : List String)
    (hkey : key ≠ cacheKey p.userID p.orgID) (h : ((c.set now visit p).entries.lookup key).isSome) :
    (c.entries.lookup key).isSome := by
  unfold set setWithTTL at h
  rw [lookup_mapSet_of_ne _ _ hkey] at h
  unfold makeRoom evictLRU at h
  split at h
  · split at h
    · exact h
    · split at h
      · exact h
      · exact lookup_filter_isSome h
  · exact h

theorem lookup_isSome_of_get {c' : MemoryCache} {now : Time}
    (h : c.get now userID orgID = (some p, c')) :
    (c.entries.lookup (cacheKey userID orgID)).isSome := by
  unfold get at h
  split at h
  · cases h
  · rename_i entry hentry
    rw [hentry]
    rfl

theorem get_of_lookup {entry : CacheEntry}
    (h : c.entries.lookup (cacheKey userID orgID) = some entry) :
    ∃ c', c.get entry.expiresAt userID orgID = (some entry.permissions, c') := by
  simp [get, h, Time.after]

/-- Late enough, every entry has run out. -/
theorem exists_get_none (c : MemoryCache) (userID orgID : String) :
    ∃ now, c.get now userID orgID = (none, c) := by
  cases hentry : c.entries.lookup (cacheKey userID orgID) with
  | none => exact ⟨⟨0, 0⟩, by simp [get, hentry]⟩
  | some entry => exact ⟨⟨entry.expiresAt.instant + 1, 0⟩, by simp [get, hentry, Time.after]⟩

end MemoryCache

namespace AccessState

variable {r : Resolver} {s s' : AccessState} {e : AccessEvent} {i G : Nat}

/-- A request that is resolving has a resolver call of its own. -/
def Linked (s : AccessState) : Prop :=
  ∀ t req, s.requests t = some ⟨req, .resolving⟩ →
    ∃ pc, s.resolver.threads t = some ⟨req.call, pc⟩

theorem afterResolve_ne (req : PermissionRequest) (verdict : Verdict) :
    afterResolve req verdict ≠ .resolving ∧
      ∀ result, afterResolve req verdict ≠ .served result true := by
  unfold afterResolve
  split
  · simp
  · split <;> simp

variable {t : Nat} {req : PermissionRequest} {key : RowKey}

theorem resolving_cases (h : s.step r e = some s') (hreq : s'.requests t = some ⟨req, .resolving⟩) :
    s.requests t = some ⟨req, .resolving⟩ ∨
      s'.resolver.threads t = some ⟨req.call, .readCache true⟩ := by
  cases request_cases h hreq with
  | same hold => exact .inl hold
  | missed _ hcall =>
    right
    generalize s'.resolver = resolver at hcall ⊢
    cases ResolverState.step_cases hcall
    simp [tick, ResolverState.goto]
  | resolved _ _ _ hpc => exact absurd hpc (afterResolve_ne _ _).1

theorem Linked.step (hs : Linked s) (h : s.step r e = some s') : Linked s' := by
  intro t req hreq
  rcases resolving_cases h hreq with hold | hcall
  · obtain ⟨pc, hth⟩ := hs t req hold
    rcases resolver_of_step h with hsame | ⟨e', hstep⟩
    · exact ⟨pc, by rw [hsame, hth]⟩
    · obtain ⟨⟨c', pc'⟩, hth', hc⟩ := thread_persists hstep hth
      obtain rfl : c' = req.call := hc
      exact ⟨pc', hth'⟩
  · exact ⟨.readCache true, hcall⟩

/-- A result resolved from something read up to event `i` is on its way into the
process cache at the key of the call, or there already. -/
inductive Carrier (i : Nat) (c : Call) (s : AccessState) : Prop where
  /-- an entry of the process cache -/
  | memory (hentry : ((s.memory c.proc).entries.lookup (cacheKey c.userID c.orgID)).isSome)
      (hold : ∃ time ∈ s.memoryReads c.proc (cacheKey c.userID c.orgID), time ≤ i)
  /-- a request between the verdict and its store -/
  | setting {t : Nat} {req : PermissionRequest} {v : Resolved}
      (hreq : s.requests t = some ⟨req, .set v⟩) (hproc : req.proc = c.proc)
      (hkey : cacheKey v.perms.userID v.perms.orgID = cacheKey c.userID c.orgID)
      (hold : ∃ time ∈ v.reads, time ≤ i)
  /-- a request whose resolver call has such a verdict, or waits for one -/
  | resolving {t : Nat} {req : PermissionRequest} {pc : Pc}
      (hreq : s.requests t = some ⟨req, .resolving⟩) (hbypass : req.bypassCache = false)
      (hslot : req.call.slot = c.slot) (hth : s.resolver.threads t = some ⟨req.call, pc⟩)
      (hcarries : ResolverState.carries i s.resolver pc)
  /-- an in-flight entry that hands one on -/
  | inFlight (hexposed : ResolverState.Exposed i s.resolver c)
  /-- a row of another user and organization whose ids join to the same cache key -/
  | row {key : RowKey} (hne : key ≠ c.row)
      (hkey : cacheKey key.userID key.orgID = cacheKey c.userID c.orgID)
      (hold : ResolverState.OldRow i key s.resolver)

variable {c : Call} {v : Resolved} {proc : Nat} {s₁ : AccessState} {tx : Transaction}

theorem Carrier.after_request {pc : RequestPc} (hcarrier : Carrier i c s)
    (hidle : s.requests t = none) : Carrier i c (s.goto t req pc) := by
  have hother : ∀ t' th, s.requests t' = some th → (s.goto t req pc).requests t' = some th := by
    intro t' th hth
    have hne : t' ≠ t := by
      rintro rfl
      rw [hidle] at hth
      cases hth
    simpa [goto, update_of_ne hne] using hth
  cases hcarrier with
  | memory hentry hold => exact .memory hentry hold
  | setting hreq hproc hkey hold => exact .setting (hother _ _ hreq) hproc hkey hold
  | resolving hreq hbypass hslot hth hcarries =>
    exact .resolving (hother _ _ hreq) hbypass hslot hth hcarries
  | inFlight hexposed => exact .inFlight hexposed
  | row hne hkey hold => exact .row hne hkey hold

/-- What the guard and the row need of a run. -/
def Cleared (i G : Nat) (key : RowKey) (s : AccessState) : Prop :=
  ResolverState.Guarded i G s.resolver ∧ ResolverState.FreshRow i key s.resolver

theorem Cleared.step (hs : Cleared i G key s) (h : s.step r e = some s') : Cleared i G key s' :=
  resolver_invariant (I := fun x => ResolverState.Guarded i G x ∧ ResolverState.FreshRow i key x)
    (fun _ _ _ hI he => ⟨hI.1.step he, hI.2.step hI.1 he⟩) hs h

theorem Cleared.of_run (hs : Cleared i G key s) {events : List AccessEvent}
    (h : run (AccessState.step r) s events = some s') : Cleared i G key s' :=
  run_invariant (fun _ _ _ hI he => hI.step he) hs h

structure Settled (i G : Nat) (c : Call) (s : AccessState) : Prop where
  guarded : ResolverState.Guarded i G s.resolver
  keyed : ResolverState.Keyed s.resolver
  linked : Linked s
  row : ResolverState.FreshRow i c.row s.resolver

theorem Settled.step {c : Call} (hs : Settled i G c s) (h : s.step r e = some s') :
    Settled i G c s' where
  guarded := (Cleared.step ⟨hs.guarded, hs.row⟩ h).1
  keyed := resolver_invariant (fun _ _ _ hI he => hI.step he) hs.keyed h
  linked := hs.linked.step h
  row := (Cleared.step ⟨hs.guarded, hs.row⟩ h).2

theorem afterResolve_set {verdict : Verdict} (h : afterResolve req verdict = .set v) :
    req.bypassCache = false ∧ verdict = .ok (v, true) := by
  unfold afterResolve at h
  split at h
  · cases h
  · rename_i v' cacheable
    split at h
    · rename_i hcond
      cases h
      simp only [Bool.and_eq_true, Bool.not_eq_true'] at hcond
      exact ⟨hcond.1, by rw [hcond.2]⟩
    · cases h

theorem setting_cases (h : s.step r e = some s') (hreq : s'.requests t = some ⟨req, .set v⟩) :
    s'.resolver = s.resolver ∧ (∃ c owner, s.requests t = some ⟨req, .resolving⟩ ∧
      req.bypassCache = false ∧ s.resolver.threads t = some ⟨c, .returned owner (.ok (v, true))⟩) ∨
    s.requests t = some ⟨req, .set v⟩ := by
  cases request_cases h hreq with
  | same hold => exact .inr hold
  | resolved hreq₀ hreturned hsame hpc =>
    obtain ⟨hbypass, rfl⟩ := afterResolve_set hpc
    exact .inl ⟨hsame, _, _, hreq₀, hbypass, hreturned⟩

theorem memory_of_step (h : s.step r e = some s') {key : String}
    (hentry : ((s'.memory proc).entries.lookup key).isSome)
    (hold : ∃ time ∈ s'.memoryReads proc key, time ≤ i) :
    (((s.memory proc).entries.lookup key).isSome ∧ ∃ time ∈ s.memoryReads proc key, time ≤ i) ∨
    ∃ t req v, s.requests t = some ⟨req, .set v⟩ ∧ req.proc = proc ∧
      cacheKey v.perms.userID v.perms.orgID = key ∧ ∃ time ∈ v.reads, time ≤ i := by
  cases step_cases h with
  | request | missed | resolved | resolver => exact .inl ⟨hentry, hold⟩
  | hit t₀ now req₀ p c _ _ hget =>
    refine .inl ⟨?_, hold⟩
    by_cases hproc : proc = req₀.proc
    · subst hproc
      apply MemoryCache.lookup_get_isSome now req₀.userID req₀.orgID
      rw [hget]
      simpa [goto, withMemory] using hentry
    · simpa [goto, withMemory, update_of_ne hproc] using hentry
  | stored t₀ now visit req₀ v₀ hreq₀ =>
    by_cases hproc : proc = req₀.proc
    · subst hproc
      by_cases hkey : key = cacheKey v₀.perms.userID v₀.perms.orgID
      · subst hkey
        exact .inr ⟨t₀, req₀, v₀, hreq₀, rfl, rfl, by simpa [stepSet, goto] using hold⟩
      · refine .inl ⟨MemoryCache.lookup_set_isSome now visit hkey ?_, ?_⟩
        · simpa [stepSet, goto, withMemory] using hentry
        · simpa [stepSet, goto, update_of_ne hkey] using hold
    · refine .inl ⟨?_, ?_⟩
      · simpa [stepSet, goto, withMemory, update_of_ne hproc] using hentry
      · simpa [stepSet, goto, update_of_ne hproc] using hold
  | dropped _ proc₀ keep =>
    refine .inl ⟨?_, hold⟩
    by_cases hproc : proc = proc₀
    · subst hproc
      have hkept : (((s.memory proc).entries.filter keep).lookup key).isSome := by
        simpa [withMemory] using hentry
      exact lookup_filter_isSome hkept
    · simpa [withMemory, update_of_ne hproc] using hentry

/-- No event makes a carrier out of nothing. -/
theorem Carrier.of_step (hs : Settled i G c s) (h : s.step r e = some s')
    (hcarrier : Carrier i c s') : Carrier i c s := by
  have hrows : ∀ key : RowKey, cacheKey key.userID key.orgID = cacheKey c.userID c.orgID →
      ResolverState.OldRow i key s.resolver → Carrier i c s := by
    intro key hkey hold
    refine .row ?_ hkey hold
    rintro rfl
    exact not_oldRow_iff.mpr hs.row hold
  cases hcarrier with
  | memory hentry hold =>
    rcases memory_of_step h hentry hold with ⟨hentry', hold'⟩ | ⟨t, req, v, hreq, hproc, hkey, hv⟩
    · exact .memory hentry' hold'
    · exact .setting hreq hproc hkey hv
  | setting hreq hproc hkey hold =>
    rcases setting_cases h hreq with ⟨-, c₀, owner, hreq', hbypass, hth⟩ | hsame
    · -- the verdict is under the key of the request
      obtain ⟨pc, hlinked⟩ := hs.linked _ _ hreq'
      rw [hth] at hlinked
      cases hlinked
      have hkeyed : cacheKey _ _ = cacheKey _ _ := hs.keyed.calls _ _ hth
      refine .resolving hreq' hbypass ?_ hth hold
      exact Prod.ext hproc (hkeyed.symm.trans hkey)
    · exact .setting hsame hproc hkey hold
  | @resolving t req pc hreq hbypass hslot hth hcarries =>
    have hrow : cacheKey req.call.row.userID req.call.row.orgID = cacheKey c.userID c.orgID :=
      congrArg Prod.snd hslot
    have hexp : ResolverState.Exposed i s.resolver req.call → Carrier i c s := by
      rintro ⟨entry, hin, hentry⟩
      exact .inFlight ⟨entry, by rw [← hslot]; exact hin, hentry⟩
    have hreq₀ : s.requests t = some ⟨req, .resolving⟩ := by
      rcases resolving_cases h hreq with hold | hstarted
      · exact hold
      · -- a call that has just started carries nothing
        rw [hth] at hstarted
        cases hstarted
        cases hcarries
    rcases resolver_of_step h with hsame | ⟨e', hstep⟩
    · rw [hsame] at hth hcarries
      exact .resolving hreq₀ hbypass hslot hth hcarries
    · rcases thread_cases hstep hth with hth₀ | ⟨c₀, -, -, heq⟩ | ⟨choice, pc₀, -, hth₀, hnext⟩
      · refine .resolving hreq₀ hbypass hslot hth₀ ?_
        cases pc with
        | await entry => exact ResolverState.EntryOld.of_step hs.guarded hstep hcarries
        | readCache | peek | claim | readGeneration | computing | broadcast | remove | returned =>
          exact hcarries
      · cases heq
        cases hcarries
      · rcases carries_of_nextPc hs.guarded hstep hth₀ hnext hcarries with
          hcarries₀ | hold | hexposed
        · exact .resolving hreq₀ hbypass hslot hth₀ hcarries₀
        · exact hrows _ hrow hold
        · exact hexp hexposed
  | inFlight hexposed =>
    rcases resolver_of_step h with hsame | ⟨e', hstep⟩
    · rw [hsame] at hexposed
      exact .inFlight hexposed
    · exact .inFlight (hexposed.of_step hs.guarded hstep)
  | row hne hkey hold =>
    rcases resolver_of_step h with hsame | ⟨e', hstep⟩
    · rw [hsame] at hold
      exact .row hne hkey hold
    · exact .row hne hkey (hold.of_step hs.guarded hstep)

/-! ## Serving what a carrier holds -/

/-- `s'` can follow `s`. -/
def Reaches (r : Resolver) (s s' : AccessState) : Prop := ∃ events, run (step r) s events = some s'

theorem Reaches.trans {s₂ s₃ : AccessState} (h₁ : Reaches r s₁ s₂) (h₂ : Reaches r s₂ s₃) :
    Reaches r s₁ s₃ := by
  obtain ⟨first, hfirst⟩ := h₁
  obtain ⟨second, hsecond⟩ := h₂
  exact ⟨first ++ second, by rw [run_append, hfirst]; exact hsecond⟩

theorem Reaches.of_step (h : s.step r e = some s') : Reaches r s s' :=
  ⟨[e], by rw [run_cons, h]; rfl⟩

theorem Reaches.of_resolver {events : List ResolverEvent} {resolver : ResolverState}
    (h : run (ResolverState.step r) s.resolver events = some resolver) :
    Reaches r s { s with resolver } :=
  ⟨events.map .resolver, run_resolver h⟩

/-- Request `t` for the call waits at its look into the cache; it can be served
something old from there. -/
def CanServeOld (r : Resolver) (i : Nat) (t : Nat) (req : PermissionRequest) (s : AccessState) :
    Prop :=
  ∃ s' v, Reaches r s s' ∧ s'.requests t = some ⟨req, .served (.ok v) true⟩ ∧
    ∃ time ∈ v.reads, time ≤ i

theorem CanServeOld.of_reaches (h : Reaches r s s') (hs' : CanServeOld r i t req s') :
    CanServeOld r i t req s := by
  obtain ⟨s'', v, hreach, hserved, hold⟩ := hs'
  exact ⟨s'', v, h.trans hreach, hserved, hold⟩

section Serving

variable {t t' : Nat} {req req' : PermissionRequest} {v : Resolved}

variable (hreq : s.requests t = some ⟨req, .get⟩) (hbypass : req.bypassCache = false)

include hreq hbypass

theorem canServeOld_memory
    (hentry : ((s.memory req.proc).entries.lookup (cacheKey req.userID req.orgID)).isSome)
    (hold : ∃ time ∈ s.memoryReads req.proc (cacheKey req.userID req.orgID), time ≤ i) :
    CanServeOld r i t req s := by
  obtain ⟨entry, hlookup⟩ := Option.isSome_iff_exists.mp hentry
  obtain ⟨c', hget⟩ := MemoryCache.get_of_lookup hlookup
  have hstep : s.step r (.get t entry.expiresAt) = some ((s.withMemory req.proc c').goto t req
      (.served (.ok ⟨entry.permissions,
        s.memoryReads req.proc (cacheKey req.userID req.orgID)⟩) true)) := by
    simp [step, hreq, stepGet, hbypass, hget]
  exact ⟨_, ⟨entry.permissions, _⟩, .of_step hstep, by simp [goto], hold⟩

/-- A store of something old is followed by the look of request `t`. -/
theorem canServeOld_set (hreq' : s.requests t' = some ⟨req', .set v⟩) (hproc : req'.proc = req.proc)
    (hkey : cacheKey v.perms.userID v.perms.orgID = cacheKey req.userID req.orgID)
    (hold : ∃ time ∈ v.reads, time ≤ i) : CanServeOld r i t req s := by
  have hne : t ≠ t' := by
    rintro rfl
    rw [hreq] at hreq'
    cases hreq'
  have hstep : s.step r (.set t' ⟨0, 0⟩ []) = some (s.stepSet t' req' v ⟨0, 0⟩ []) := by
    simp [step, hreq']
  refine .of_reaches (.of_step hstep) (canServeOld_memory ?_ hbypass ?_ ?_)
  · simpa [stepSet, goto, withMemory, update_of_ne hne] using hreq
  · rw [← hproc, ← hkey]
    simp [stepSet, goto, withMemory, MemoryCache.set, MemoryCache.setWithTTL, lookup_mapSet_self]
  · rw [← hproc, ← hkey]
    simpa [stepSet, goto] using hold

theorem canServeOld_resolved {owner : Bool} (hkeyed : ResolverState.Keyed s.resolver)
    (hreq' : s.requests t' = some ⟨req', .resolving⟩) (hbypass' : req'.bypassCache = false)
    (hslot : req'.call.slot = req.call.slot)
    (hth : s.resolver.threads t' = some ⟨req'.call, .returned owner (.ok (v, true))⟩)
    (hold : ∃ time ∈ v.reads, time ≤ i) : CanServeOld r i t req s := by
  have hne : t ≠ t' := by
    rintro rfl
    rw [hreq] at hreq'
    cases hreq'
  have hstep : s.step r (.resolved t') = some (s.goto t' req' (.set v)) := by
    simp [step, hreq', stepResolved, hth, afterResolve, hbypass']
  have hkey : cacheKey v.perms.userID v.perms.orgID = cacheKey req'.userID req'.orgID :=
    hkeyed.calls _ _ hth
  have hset : (s.goto t' req' (.set v)).requests t' = some ⟨req', .set v⟩ := by simp [goto]
  refine .of_reaches (.of_step hstep) (canServeOld_set ?_ hbypass hset (congrArg Prod.fst hslot)
    (hkey.trans (congrArg Prod.snd hslot)) hold)
  simpa [goto, update_of_ne hne] using hreq

/-- The resolver call of call `t'` can return something old that may be cached. -/
def ReturnsOld (r : Resolver) (i : Nat) (t' : Nat) (c : Call) (s : ResolverState) : Prop :=
  ∃ events s' owner v, run (ResolverState.step r) s events = some s' ∧
    s'.threads t' = some ⟨c, .returned owner (.ok (v, true))⟩ ∧ ∃ time ∈ v.reads, time ≤ i

theorem canServeOld_resolving (hkeyed : ResolverState.Keyed s.resolver)
    (hreq' : s.requests t' = some ⟨req', .resolving⟩) (hbypass' : req'.bypassCache = false)
    (hslot : req'.call.slot = req.call.slot) (hreturns : ReturnsOld r i t' req'.call s.resolver) :
    CanServeOld r i t req s := by
  obtain ⟨events, resolver, owner, v, hrun, hth, hold⟩ := hreturns
  have hkeyed' : ResolverState.Keyed resolver :=
    run_invariant (fun _ _ _ hI he => hI.step he) hkeyed hrun
  have hserve : CanServeOld r i t req { s with resolver } :=
    canServeOld_resolved hreq hbypass hkeyed' hreq' hbypass' hslot hth hold
  exact .of_reaches (.of_resolver hrun) hserve

theorem canServeOld_new (req' : PermissionRequest) (hkeyed : ResolverState.Keyed s.resolver)
    (hidle : s.requests t' = none) (hunused : s.resolver.threads t' = none)
    (hbypass' : req'.bypassCache = false) (hslot : req'.call.slot = req.call.slot)
    (hreturns : ReturnsOld r i t' req'.call (s.resolver.goto t' req'.call (.readCache true)).tick) :
    CanServeOld r i t req s := by
  have hne : t ≠ t' := by
    rintro rfl
    rw [hreq] at hidle
    cases hidle
  obtain ⟨now, hmiss⟩ :=
    MemoryCache.exists_get_none (s.memory req'.proc) req'.userID req'.orgID
  have hrequest : s.step r (.request t' req') = some (s.goto t' req' .get) := by
    simp [step, hidle]
  have hcall : s.resolver.step r (.call t' req'.call) =
      some (s.resolver.goto t' req'.call (.readCache true)).tick := step_call hunused
  have hget : (s.goto t' req' .get).step r (.get t' now) =
      some ({ s.goto t' req' .get with
        resolver :=
          (s.resolver.goto t' req'.call (.readCache true)).tick }.goto t' req' .resolving) := by
    have hcall' : (s.goto t' req' .get).resolver.step r (.call t' req'.call) =
        some (s.resolver.goto t' req'.call (.readCache true)).tick := hcall
    have hmiss' : ((s.goto t' req' .get).memory req'.proc).get now req'.userID req'.orgID =
        (none, s.memory req'.proc) := hmiss
    have hpc : (s.goto t' req' .get).requests t' = some ⟨req', .get⟩ := by simp [goto]
    simp only [step, hpc, stepGet, hbypass', hmiss', startResolve, hcall', Option.map_some]
    rfl
  refine .of_reaches (.of_step hrequest) (.of_reaches (.of_step hget) ?_)
  have hresolving : ({ s.goto t' req' .get with
      resolver := (s.resolver.goto t' req'.call (.readCache true)).tick }.goto t' req'
        .resolving).requests t' = some ⟨req', .resolving⟩ := by simp [goto]
  refine canServeOld_resolving ?_ hbypass (hkeyed.step hcall) hresolving hbypass' hslot hreturns
  simpa [goto, update_of_ne hne] using hreq

end Serving

/-- Numbers from some point on are unused by requests and resolver calls. -/
structure Unused (s : AccessState) : Prop where
  requests : ∃ n, ∀ t, n ≤ t → s.requests t = none
  calls : ResolverState.Unused s.resolver

/-- An event writes the place of one request, or none. -/
theorem requests_of_step (h : s.step r e = some s') :
    s'.requests = s.requests ∨ ∃ t th, s'.requests = update s.requests t (some th) := by
  cases step_cases h with
  | request | hit | missed | resolved | stored => exact .inr ⟨_, _, rfl⟩
  | resolver | dropped => exact .inl rfl

theorem Unused.step (hs : Unused s) (h : s.step r e = some s') : Unused s' := by
  refine ⟨?_, resolver_invariant (fun _ _ _ hI he => hI.step he) hs.calls h⟩
  obtain ⟨n, hn⟩ := hs.requests
  rcases requests_of_step h with hsame | ⟨t₀, th, hwrites⟩
  · exact ⟨n, by rwa [hsame]⟩
  · refine ⟨max n (t₀ + 1), fun t ht => ?_⟩
    rw [hwrites, update_of_ne (by omega)]
    exact hn t (by omega)

/-- Whatever the carrier, some schedule serves what it holds. -/
theorem Carrier.canServeOld (hkeyed : ResolverState.Keyed s.resolver) (hunused : Unused s)
    (hreq : s.requests t = some ⟨req, .get⟩) (hbypass : req.bypassCache = false)
    (hcarrier : Carrier i req.call s) : CanServeOld r i t req s := by
  obtain ⟨n, hn⟩ := hunused.requests
  obtain ⟨m, hm⟩ := hunused.calls
  have hidle : s.requests (max n m) = none := hn _ (le_max_left n m)
  have hfree : s.resolver.threads (max n m) = none := hm _ (le_max_right n m)
  cases hcarrier with
  | memory hentry hold => exact canServeOld_memory hreq hbypass hentry hold
  | setting hreq' hproc hkey hold => exact canServeOld_set hreq hbypass hreq' hproc hkey hold
  | resolving hreq' hbypass' hslot hth hcarries =>
    exact canServeOld_resolving hreq hbypass hkeyed hreq' hbypass' hslot
      (carries_returned hth hcarries)
  | inFlight hexposed =>
    -- one more request of the same user joins the entry
    refine canServeOld_new hreq hbypass req hkeyed hidle hfree hbypass rfl ?_
    have hexposed' : ResolverState.Exposed i
        (s.resolver.goto (max n m) req.call (.readCache true)).tick req.call :=
      hexposed.after_call hfree
    obtain ⟨events, s', v, hrun, hth, hold⟩ := hexposed'.joined (r := r) (t := max n m)
      (by simp [tick, ResolverState.goto])
    exact ⟨events, s', false, v, hrun, hth, hold⟩
  | @row key hne hkey hold =>
    -- a request of the other user is answered by the row
    have hcall := step_call (r := r)
      (c := (⟨req.proc, key.userID, key.orgID, false⟩ : PermissionRequest).call) hfree
    refine canServeOld_new hreq hbypass ⟨req.proc, key.userID, key.orgID, false⟩ hkeyed
      hidle hfree rfl (Prod.ext rfl hkey) ?_
    exact ResolverState.OldRow.returned (hkeyed.step hcall) hold
      (by simp [tick, ResolverState.goto])

/-! ## The invalidation calls -/

/-- `InvalidateUser`, `InvalidateOrg` and `InvalidateOrgLocalCache`. -/
inductive Invalidation where
  | user (userID : String)
  | org (orgID : String)
  | orgLocal (orgID : String)

/-- The atomic steps of the call in process `proc`, up to its return. -/
def Invalidation.events (proc : Nat) : Invalidation → List AccessEvent
  | .user userID =>
      [.dropUser proc userID, .resolver (.commit (.invalidateCacheForUser userID))]
  | .org orgID =>
      [.dropOrg proc orgID, .resolver (.commit .bumpCacheGeneration),
        .resolver (.commit (.deleteCacheForOrg orgID))]
  | .orgLocal orgID => [.dropOrg proc orgID]

/-- The call is meant for the user and organization of the key. With
`InvalidateOrgLocalCache` it is the mutation that has bumped the generation and
deleted the row. -/
def Invalidation.Covers (tx : Transaction) (key : RowKey) : Invalidation → Prop
  | .user userID => key.userID = userID
  | .org orgID => key.orgID = orgID
  | .orgLocal orgID => key.orgID = orgID ∧ tx.bumps = true ∧ tx.deletes key = true

/-- What holds in every reachable state. -/
structure Reachable (s : AccessState) : Prop where
  based : ResolverState.Based s.resolver
  keyed : ResolverState.Keyed s.resolver
  linked : Linked s
  unused : Unused s

theorem reachable_init (db : Database) (generation : Nat) (ttl : Int) (maxEntries : Nat) :
    Reachable (init db generation ttl maxEntries) where
  based := based_init db generation
  keyed := keyed_init db generation
  linked t req hreq := by cases hreq
  unused := ⟨⟨0, fun t _ => rfl⟩, ⟨0, fun t _ => rfl⟩⟩

theorem Reachable.step (hs : Reachable s) (h : s.step r e = some s') : Reachable s' where
  based := resolver_invariant (fun _ _ _ hI he => hI.step he) hs.based h
  keyed := resolver_invariant (fun _ _ _ hI he => hI.step he) hs.keyed h
  linked := hs.linked.step h
  unused := hs.unused.step h

theorem Reachable.of_run (hs : Reachable s) {events : List AccessEvent}
    (h : run (AccessState.step r) s events = some s') : Reachable s' :=
  run_invariant (fun _ _ _ hI he => hI.step he) hs h

theorem clock_le_run {events : List AccessEvent} (h : run (step r) s events = some s') :
    s.resolver.clock ≤ s'.resolver.clock := by
  refine run_invariant (I := fun s₁ => s.resolver.clock ≤ s₁.resolver.clock) ?_ (le_refl _) h
  intro s₁ e₁ s₂ hle hstep
  rcases resolver_of_step hstep with hsame | ⟨e', he'⟩
  · rwa [hsame]
  · have := clock_step he'
    omega

theorem guarded_run (hs : ResolverState.Guarded i G s.resolver) {events : List AccessEvent}
    (h : run (step r) s events = some s') : ResolverState.Guarded i G s'.resolver :=
  run_invariant (I := fun s => ResolverState.Guarded i G s.resolver)
    (fun _ _ _ hI he => resolver_invariant (fun _ _ _ hJ he' => hJ.step he') hI he) hs h

theorem run_at {events : List AccessEvent} (h : run (step r) s events = some s') {e : AccessEvent}
    (he : e ∈ events) : ∃ first second s₁ s₂, run (step r) s first = some s₁ ∧
      s₁.step r e = some s₂ ∧ run (step r) s₂ second = some s' := by
  obtain ⟨first, second, rfl⟩ := List.append_of_mem he
  obtain ⟨s₁, s₂, hfirst, hstep, hsecond⟩ := run_cons_split h
  exact ⟨first, second, s₁, s₂, hfirst, hstep, hsecond⟩

theorem freshRow_commit {x : ResolverState} (htx : tx.deletes key = true) :
    ResolverState.FreshRow i key (x.commit tx).tick := by
  intro hsome
  have hgone := lookup_commit_deleted (s := x) htx
  rw [show (x.commit tx).tick.sql = (x.commit tx).sql from rfl, hgone] at hsome
  cases hsome

/-- Once the invalidation has returned, no computation under way can publish anything
old, and the row of a covered key is not old. -/
theorem cleared_of_invalidation {after : List AccessEvent} {inv : Invalidation} (hs₁ : Reachable s₁)
    (h : run (AccessState.step r) s₁ (.resolver (.commit tx) :: after) = some s)
    (hinv : (inv.events proc).Sublist after) (hcovers : inv.Covers tx key) :
    ∃ G, Cleared s₁.resolver.clock G key s := by
  rw [run_cons, Option.bind_eq_some_iff] at h
  obtain ⟨s₂, hcommit, hafter⟩ := h
  have hs₂ : Reachable s₂ := hs₁.step hcommit
  have hone : run (AccessState.step r) s₁ [.resolver (.commit tx)] = some s₂ := by
    rw [run_cons, hcommit]
    rfl
  have hclock : s₁.resolver.clock ≤ s₂.resolver.clock := clock_le_run hone
  cases inv with
  | user userID =>
    have hmem : AccessEvent.resolver (.commit (.invalidateCacheForUser userID)) ∈ after :=
      hinv.subset (by simp [Invalidation.events])
    obtain ⟨first, second, x, y, hfirst, hstep, hsecond⟩ := run_at hafter hmem
    cases hstep
    have hle := clock_le_run hfirst
    refine ⟨x.resolver.generation + 1, Cleared.of_run ⟨?_, ?_⟩ hsecond⟩
    · exact (hs₂.of_run hfirst).based.guarded_commit rfl (by omega)
    · exact freshRow_commit (beq_iff_eq.mpr hcovers)
  | org orgID =>
    have hsub : [AccessEvent.resolver (.commit .bumpCacheGeneration),
        .resolver (.commit (.deleteCacheForOrg orgID))].Sublist after :=
      (List.sublist_cons_self _ _).trans hinv
    obtain ⟨front, back, rfl, hbump, hdelete⟩ := List.cons_sublist_iff.mp hsub
    obtain ⟨s₃, hfront, hback⟩ := run_append_split hafter
    -- the bump guards from there on, the delete then clears the row
    obtain ⟨first, second, x, y, hfirst, hstep, hsecond⟩ := run_at hfront hbump
    cases hstep
    have hle := clock_le_run hfirst
    have hguarded : ResolverState.Guarded s₁.resolver.clock (x.resolver.generation + 1)
        (x.resolver.commit .bumpCacheGeneration).tick :=
      (hs₂.of_run hfirst).based.guarded_commit rfl (by omega)
    have hguarded₃ := guarded_run (s := { x with resolver := _ }) hguarded hsecond
    obtain ⟨first', second', x', y', hfirst', hstep', hsecond'⟩ :=
      run_at hback (List.singleton_sublist.mp hdelete)
    have hguarded' := guarded_run hguarded₃ hfirst'
    have hguardedy : ResolverState.Guarded s₁.resolver.clock _ y'.resolver :=
      resolver_invariant (fun _ _ _ hI he => hI.step he) hguarded' hstep'
    cases hstep'
    refine ⟨_, Cleared.of_run ⟨hguardedy, ?_⟩ hsecond'⟩
    exact freshRow_commit (beq_iff_eq.mpr hcovers)
  | orgLocal orgID =>
    obtain ⟨-, hbumps, hdeletes⟩ := hcovers
    cases hcommit
    exact ⟨s₁.resolver.generation + 1,
      Cleared.of_run ⟨hs₁.based.guarded_commit hbumps (le_refl _), freshRow_commit hdeletes⟩ hafter⟩

/-- Request `t`, as it runs after the invalidation from a state without a carrier. -/
structure Undisturbed (i G t : Nat) (req : PermissionRequest) (s : AccessState) : Prop where
  settled : Settled i G req.call s
  noCarrier : req.bypassCache = true ∨ ¬ Carrier i req.call s
  same : ∀ th, s.requests t = some th → th.req = req
  fresh : ∀ v, s.requests t = some ⟨req, .served (.ok v) true⟩ → ∀ time ∈ v.reads, i < time

theorem served_cases (h : s.step r e = some s') {th : RequestThread}
    (hth : s'.requests t = some th) :
    (∃ th₀, s.requests t = some th₀ ∧ th₀.req = th.req ∧
      (∀ v, th.pc = .served (.ok v) true → th₀.pc = .served (.ok v) true ∨
        th.req.bypassCache = false ∧
        ((s.memory th.req.proc).entries.lookup (cacheKey th.req.userID th.req.orgID)).isSome ∧
        v.reads = s.memoryReads th.req.proc (cacheKey th.req.userID th.req.orgID))) ∨
    (e = .request t th.req ∧ th.pc = .get) := by
  cases request_cases h hth with
  | same hold => exact .inl ⟨th, hold, rfl, fun v hv => .inl hv⟩
  | started he => exact .inr ⟨he, rfl⟩
  | hit hreq hbypass hget =>
    refine .inl ⟨_, hreq, rfl, fun v hv => .inr ⟨hbypass, ?_, ?_⟩⟩
    · exact MemoryCache.lookup_isSome_of_get hget
    · cases hv
      rfl
  | missed hreq | stored hreq => exact .inl ⟨_, hreq, rfl, fun v hv => by cases hv⟩
  | resolved hreq _ _ hpc =>
    exact .inl ⟨_, hreq, rfl, fun v hv => absurd (hpc.trans hv) ((afterResolve_ne _ _).2 _)⟩

/-- Only an event of its own starts a request. -/
theorem requests_none_of_run {events : List AccessEvent}
    (h : run (step r) s events = some s') (hidle : s.requests t = none)
    (hno : ∀ req, AccessEvent.request t req ∉ events) : s'.requests t = none := by
  by_contra hsome
  obtain ⟨first, e, rest, s₁, s₂, rfl, -, hnone, hstep, hstarted⟩ :=
    run_undoes (P := fun s => s.requests t = none) hidle hsome h
  obtain ⟨th, hth⟩ := Option.ne_none_iff_exists'.mp hstarted
  rcases served_cases hstep hth with ⟨th₀, hth₀, -⟩ | ⟨rfl, -⟩
  · rw [hnone] at hth₀
    cases hth₀
  · exact hno th.req (by simp)

theorem request_persists (h : s.step r e = some s') (ht : (s.requests t).isSome) :
    (s'.requests t).isSome := by
  rcases requests_of_step h with hsame | ⟨t₀, th, hwrites⟩
  · rwa [hsame]
  · rw [hwrites, update_apply]
    split
    · rfl
    · exact ht

theorem Undisturbed.step {t : Nat} {req : PermissionRequest} (hs : Undisturbed i G t req s)
    (hstarted : (s.requests t).isSome) (h : s.step r e = some s') : Undisturbed i G t req s' where
  settled := hs.settled.step h
  noCarrier := hs.noCarrier.imp_right fun hnot hcarrier => hnot (hcarrier.of_step hs.settled h)
  same th hth := by
    rcases served_cases h hth with ⟨th₀, hth₀, hreq, -⟩ | ⟨rfl, -⟩
    · rw [← hreq]
      exact hs.same th₀ hth₀
    · -- a number is used once
      obtain ⟨th₀, hth₀⟩ := Option.isSome_iff_exists.mp hstarted
      simp [AccessState.step, hth₀] at h
  fresh v hv := by
    rcases served_cases h hv with ⟨⟨req₀, pc₀⟩, hth₀, hreq, hserved⟩ | ⟨-, hget⟩
    · obtain rfl : req₀ = req := hreq
      rcases hserved v rfl with hpc | ⟨hbypass, hentry, hreads⟩
      · obtain rfl : pc₀ = _ := hpc
        exact hs.fresh v hth₀
      · -- the entry that was hit is no carrier
        intro time htime
        by_contra hle
        rcases hs.noCarrier with htrue | hnot
        · rw [htrue] at hbypass
          cases hbypass
        · rw [hreads] at htime
          exact hnot (.memory hentry ⟨time, htime, by omega⟩)
    · cases hget

/-- Once `InvalidateUser`, `InvalidateOrg` or `InvalidateOrgLocalCache` has returned, a
request of a covered user that starts later is never served, from the cache of the
process, permissions computed from anything read before the mutation, exactly when it
bypasses the cache or no carrier is left. -/
theorem local_invalidation_final_iff {db : Database} {generation : Nat} {ttl : Int}
    {maxEntries : Nat}
    {before after : List AccessEvent} {tx : Transaction} {s₁ : AccessState}
    (hbefore : run (step r) (init db generation ttl maxEntries) before = some s₁)
    (hafter : run (step r) s₁ (.resolver (.commit tx) :: after) = some s) {inv : Invalidation}
    {req : PermissionRequest} (hinv : (inv.events req.proc).Sublist after)
    (hcovers : inv.Covers tx req.call.row) {t : Nat} (hidle : s.requests t = none) :
    (∀ events s' v, run (step r) s (.request t req :: events) = some s' →
      s'.requests t = some ⟨req, .served (.ok v) true⟩ →
      ∀ time ∈ v.reads, s₁.resolver.clock < time) ↔
    (req.bypassCache = true ∨ ¬ Carrier s₁.resolver.clock req.call s) := by
  have hs₁ : Reachable s₁ := (reachable_init db generation ttl maxEntries).of_run hbefore
  have hs : Reachable s := hs₁.of_run hafter
  obtain ⟨G, hguarded, hrow⟩ := cleared_of_invalidation hs₁ hafter hinv hcovers
  have hsettled : Settled s₁.resolver.clock G req.call s := ⟨hguarded, hs.keyed, hs.linked, hrow⟩
  have hstart : s.step r (.request t req) = some (s.goto t req .get) := by
    simp [AccessState.step, hidle]
  have hpc : (s.goto t req .get).requests t = some ⟨req, .get⟩ := by simp [goto]
  constructor
  · intro hall
    by_contra hnot
    rw [not_or, not_not] at hnot
    have hcarrier : Carrier s₁.resolver.clock req.call (s.goto t req .get) :=
      hnot.2.after_request hidle
    obtain ⟨s', v, ⟨events, hrun⟩, hserved, time, htime, hle⟩ :=
      hcarrier.canServeOld (r := r) (hs.step hstart).keyed (hs.step hstart).unused hpc
        (by simpa using hnot.1)
    have hfresh := hall events s' v (by rw [run_cons, hstart]; exact hrun) hserved time htime
    omega
  · intro hno events s' v hrun hserved
    rw [run_cons, hstart, Option.bind_some] at hrun
    have hinvariant : Undisturbed s₁.resolver.clock G t req s' ∧ (s'.requests t).isSome := by
      refine run_invariant
        (I := fun s => Undisturbed s₁.resolver.clock G t req s ∧ (s.requests t).isSome) ?_ ?_ hrun
      · intro x e' y hx hstep
        exact ⟨hx.1.step hx.2 hstep, request_persists hstep hx.2⟩
      · refine ⟨⟨hsettled.step hstart, ?_, ?_, ?_⟩, by rw [hpc]; rfl⟩
        · exact hno.imp_right fun hnot hcarrier => hnot (hcarrier.of_step hsettled hstart)
        · intro th hth
          rw [hpc] at hth
          cases hth
          rfl
        · intro v' hv'
          rw [hpc] at hv'
          cases hv'
    exact hinvariant.1.fresh v hserved

/-- A request of the user of `grantAnswers`. -/
def sampleRequest : PermissionRequest := ⟨0, "alice", "org", false⟩

/-- Request `0` has its verdict when the revocation commits and the user's entries are
dropped. It stores after that, and request `1` is served from memory what was read at
events `5` to `8`, before the commit at event `14`. -/
theorem stored_after_invalidation :
    (run (step ⟨5 * minute, .ok⟩) (init (grantAnswers none) 0 (5 * minute) 50000)
      ([AccessEvent.request 0 sampleRequest, .get 0 ⟨0, 0⟩] ++
        List.replicate 13 (AccessEvent.resolver (.step 0 {})) ++
        [AccessEvent.resolved 0, .resolver (.commit ResolverState.sampleRevocation)] ++
        (Invalidation.user "alice").events 0 ++
        [AccessEvent.set 0 ⟨0, 0⟩ [], .request 1 sampleRequest, .get 1 ⟨0, 0⟩])).any (fun s =>
          match s.requests 1 with
          | some ⟨_, .served (.ok v) fromMemory⟩ => v.reads == [8, 7, 6, 5] && fromMemory
          | _ => false) = true := by
  decide

def branchRequest : PermissionRequest := ⟨0, "alice", "branch", false⟩

/-- Request `0` has stored what it resolved; request `1` has put two of its queries. -/
def busyEvents : List AccessEvent :=
  [AccessEvent.request 0 sampleRequest, .get 0 ⟨0, 0⟩] ++
    List.replicate 13 (AccessEvent.resolver (.step 0 {})) ++
    [AccessEvent.resolved 0, .set 0 ⟨0, 0⟩ [], .request 1 branchRequest, .get 1 ⟨0, 0⟩] ++
    List.replicate 6 (AccessEvent.resolver (.step 1 {}))

/-- Request `1` is resolving, and its call computes. -/
def halfResolved (s : AccessState) : Bool :=
  match s.requests 1, s.resolver.threads 1 with
  | some ⟨_, .resolving⟩, some ⟨_, .computing ..⟩ => true
  | _, _ => false

/-- No entry and no row is left, request `0` is over, and nothing is in flight but what
request `1` computes. -/
def onlyComputing (s : AccessState) : Bool :=
  (s.memory 0).entries.isEmpty && s.resolver.sql.rows.isEmpty && halfResolved s &&
    (match s.requests 0 with
      | some ⟨_, .served _ _⟩ => true
      | _ => false) &&
    [sampleRequest, branchRequest].all fun req => (s.resolver.inFlight req.call.slot).all (· == 1)

theorem not_carrier_of_onlyComputing (honly : onlyComputing s = true)
    (hothers : ∀ t, t ≠ 0 → t ≠ 1 → s.requests t = none)
    (hreq : req ∈ [sampleRequest, branchRequest]) :
    ¬ Carrier i req.call s := by
  simp only [onlyComputing, halfResolved, Bool.and_eq_true, List.all_eq_true,
    List.isEmpty_iff] at honly
  obtain ⟨⟨⟨⟨hmemory, hrows⟩, hhalf⟩, hserved⟩, hflight⟩ := honly
  have hproc : req.call.proc = 0 := by
    simp only [List.mem_cons, List.not_mem_nil, or_false] at hreq
    rcases hreq with rfl | rfl <;> rfl
  -- what request `1` computes is no verdict yet
  split at hhalf
  · rename_i req₁ c owner generation rest reads hreq₁ hth₁
    split at hserved
    · rename_i req₀ result fromMemory hreq₀
      intro hcarrier
      cases hcarrier with
      | memory hentry => simp [hproc, hmemory] at hentry
      | @setting t _ _ hset =>
        by_cases h0 : t = 0
        · simp [h0, hreq₀] at hset
        · by_cases h1 : t = 1
          · simp [h1, hreq₁] at hset
          · simp [hothers t h0 h1] at hset
      | @resolving t _ _ hres _ _ hth hcarries =>
        by_cases h0 : t = 0
        · simp [h0, hreq₀] at hres
        · by_cases h1 : t = 1
          · rw [h1, hth₁] at hth
            cases hth
            exact hcarries
          · simp [hothers t h0 h1] at hres
      | inFlight hexposed =>
        obtain ⟨entry, hslot, th, hth, hold⟩ := hexposed
        have hone := hflight req hreq
        rw [hslot, Option.all_some, beq_iff_eq] at hone
        rw [hone, hth₁] at hth
        cases hth
        exact hold
      | row hne hkey hold => simp [ResolverState.OldRow, hrows] at hold
    · cases hserved
  · cases hhalf

/-- One entry of the user is stored and another request of that user is half resolved when
the rights are revoked; the invalidation is final for both organizations. -/
theorem local_invalidation_final_undisturbed :
    ∃ s₁ s, run (step ⟨5 * minute, .ok⟩) (init (grantAnswers none) 0 (5 * minute) 50000)
        busyEvents = some s₁ ∧
      ((s₁.memory 0).entries.lookup (cacheKey "alice" "org")).isSome ∧ halfResolved s₁ ∧
      run (step ⟨5 * minute, .ok⟩) s₁ (.resolver (.commit sampleRevocation) ::
        (Invalidation.user "alice").events 0) = some s ∧
      ∀ req ∈ [sampleRequest, branchRequest], ∀ events s' v,
        run (step ⟨5 * minute, .ok⟩) s (.request 2 req :: events) = some s' →
        s'.requests 2 = some ⟨req, .served (.ok v) true⟩ →
        ∀ time ∈ v.reads, s₁.resolver.clock < time := by
  have hbusy : (run (step ⟨5 * minute, .ok⟩) (init (grantAnswers none) 0 (5 * minute) 50000)
      busyEvents).any (fun s₁ =>
        ((s₁.memory 0).entries.lookup (cacheKey "alice" "org")).isSome && halfResolved s₁ &&
        (run (step ⟨5 * minute, .ok⟩) s₁ (.resolver (.commit sampleRevocation) ::
          (Invalidation.user "alice").events 0)).any onlyComputing) = true := by
    decide
  obtain ⟨s₁, hbefore, hs₁⟩ := (Option.any_eq_true _ _).mp hbusy
  simp only [Bool.and_eq_true] at hs₁
  obtain ⟨s, hafter, honly⟩ := (Option.any_eq_true _ _).mp hs₁.2
  -- no event before the commit or of the invalidation starts another request
  have hothers : ∀ t, t ≠ 0 → t ≠ 1 → s.requests t = none := by
    intro t h0 h1
    refine requests_none_of_run (run_trans hbefore hafter) rfl ?_
    intro req hmem
    simp [busyEvents, Invalidation.events, h0, h1] at hmem
  refine ⟨s₁, s, hbefore, hs₁.1.1, hs₁.1.2, hafter, ?_⟩
  intro req hreq
  have hproc : req.proc = 0 ∧ req.userID = "alice" := by
    simp only [List.mem_cons, List.not_mem_nil, or_false] at hreq
    rcases hreq with rfl | rfl <;> exact ⟨rfl, rfl⟩
  have hinv : ((Invalidation.user "alice").events req.proc).Sublist
      ((Invalidation.user "alice").events 0) := by
    rw [hproc.1]
  exact (local_invalidation_final_iff hbefore hafter hinv hproc.2
    (hothers 2 (by decide) (by decide))).mpr
      (.inr (not_carrier_of_onlyComputing honly hothers hreq))

end AccessState

end PrivacySuite.Rbac
