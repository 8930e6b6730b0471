import PrivacySuite.Rbac.ResolverKeys

/-!
# Requests over the resolver and the process cache

`resolvePermissionsForRequest` (`internal/rbac/access.go`) on top of the resolver
calls: a request looks into the cache of its process, resolves on a miss, and stores
the result if the resolver says it may be cached. The three are separate atomic steps.
Handlers commit mutations and drop entries of the process cache in between.

A request and the resolver call it makes go by the same number.
-/

namespace PrivacySuite.Rbac

open Go Concurrency PermissionCodec Function

namespace MemoryCache

/-- The keys that go on with a colon after the user. -/
def invalidateUser (c : MemoryCache) (userID : String) : MemoryCache :=
  { c with entries := c.entries.filter fun entry => !hasPrefix entry.1 (userID ++ ":") }

/-- `key[len(key)-len(suffix):] == suffix`, for a longer key. -/
def endsWith (key suffix : String) : Bool :=
  decide (suffix.toList.length < key.toList.length) && suffix.toList.isSuffixOf key.toList

/-- The keys that end with a colon and the organization. -/
def invalidateOrg (c : MemoryCache) (orgID : String) : MemoryCache :=
  { c with entries := c.entries.filter fun entry => !endsWith entry.1 (":" ++ orgID) }

end MemoryCache

/-- The part of an access check that concerns its permissions. -/
structure PermissionRequest where
  proc : Nat
  userID : String
  orgID : String
  bypassCache : Bool := false

def PermissionRequest.call (req : PermissionRequest) : Call := ⟨req.proc, req.userID, req.orgID⟩

inductive RequestPc where
  /-- `c.cache.Get` -/
  | get
  /-- inside `ResolvePermissionsCacheable` -/
  | resolving
  /-- `c.cache.Set` -/
  | set (v : Resolved)
  | served (result : Except String Resolved) (fromMemory : Bool)

structure RequestThread where
  req : PermissionRequest
  pc : RequestPc

/-- The resolver, and for each process its cache. `memoryReads` is history, as
`rowReads` is: what the entry under a key was computed from. -/
structure AccessState where
  resolver : ResolverState
  memory : Nat → MemoryCache
  memoryReads : Nat → String → List Nat := fun _ _ => []
  requests : Nat → Option RequestThread := fun _ => none

inductive AccessEvent where
  | request (t : Nat) (req : PermissionRequest)
  | get (t : Nat) (now : Time)
  | resolved (t : Nat)
  | set (t : Nat) (now : Time) (visit : List String)
  | resolver (e : ResolverEvent)
  | dropUser (proc : Nat) (userID : String)
  | dropOrg (proc : Nat) (orgID : String)
  | cleanup (proc : Nat) (now : Time)

namespace AccessState

variable (r : Resolver) (s : AccessState)

def goto (t : Nat) (req : PermissionRequest) (pc : RequestPc) : AccessState :=
  { s with requests := Function.update s.requests t (some ⟨req, pc⟩) }

def withMemory (proc : Nat) (c : MemoryCache) : AccessState :=
  { s with memory := Function.update s.memory proc c }

def startResolve (t : Nat) (req : PermissionRequest) : Option AccessState :=
  (s.resolver.step r (.call t req.call)).map fun resolver =>
    { s with resolver }.goto t req .resolving

/-- The look into the process cache, which a fresh resolution skips. -/
def stepGet (t : Nat) (req : PermissionRequest) (now : Time) : Option AccessState :=
  if req.bypassCache then s.startResolve r t req
  else
    match (s.memory req.proc).get now req.userID req.orgID with
    | (some p, c) =>
        some ((s.withMemory req.proc c).goto t req
          (.served (.ok ⟨p, s.memoryReads req.proc (cacheKey req.userID req.orgID)⟩) true))
    | (none, _) => s.startResolve r t req

def afterResolve (req : PermissionRequest) : Verdict → RequestPc
  | .error e => .served (.error ("failed to resolve permissions: " ++ e)) false
  | .ok (v, cacheable) =>
      if !req.bypassCache && cacheable then .set v else .served (.ok v) false

def stepResolved (t : Nat) (req : PermissionRequest) : Option AccessState :=
  match s.resolver.threads t with
  | some ⟨_, .returned _ verdict⟩ => some (s.goto t req (afterResolve req verdict))
  | _ => none

def stepSet (t : Nat) (req : PermissionRequest) (v : Resolved) (now : Time) (visit : List String) :
    AccessState :=
  { s.withMemory req.proc ((s.memory req.proc).set now visit v.perms) with
    memoryReads := Function.update s.memoryReads req.proc
      (Function.update (s.memoryReads req.proc) (cacheKey v.perms.userID v.perms.orgID)
        v.reads) }.goto
    t req (.served (.ok v) false)

def step : AccessEvent → Option AccessState
  | .request t req =>
      match s.requests t with
      | none => some (s.goto t req .get)
      | some _ => none
  | .get t now =>
      match s.requests t with
      | some ⟨req, .get⟩ => s.stepGet r t req now
      | _ => none
  | .resolved t =>
      match s.requests t with
      | some ⟨req, .resolving⟩ => s.stepResolved t req
      | _ => none
  | .set t now visit =>
      match s.requests t with
      | some ⟨req, .set v⟩ => some (s.stepSet t req v now visit)
      | _ => none
  | .resolver e => (s.resolver.step r e).map fun resolver => { s with resolver }
  | .dropUser proc userID => some (s.withMemory proc ((s.memory proc).invalidateUser userID))
  | .dropOrg proc orgID => some (s.withMemory proc ((s.memory proc).invalidateOrg orgID))
  | .cleanup proc now => some (s.withMemory proc ((s.memory proc).cleanup now))

/-- Before any request; every process has an empty cache. -/
def init (db : Database) (generation : Nat) (ttl : Int) (maxEntries : Nat) : AccessState where
  resolver := .init db generation
  memory _ := ⟨[], ttl, maxEntries⟩

/-! ## What an event can do -/

variable {r s} {s' : AccessState} {e : AccessEvent}

/-- The ways an event goes. The last one is the drop of entries, by a handler or by
the cleanup. -/
inductive Steps (r : Resolver) (s : AccessState) : AccessEvent → AccessState → Prop
  | request (t : Nat) (req : PermissionRequest) (hidle : s.requests t = none) :
      Steps r s (.request t req) (s.goto t req .get)
  | hit (t : Nat) (now : Time) (req : PermissionRequest) (p : ResolvedPermissions) (c : MemoryCache)
      (hreq : s.requests t = some ⟨req, .get⟩) (hbypass : req.bypassCache = false)
      (hget : (s.memory req.proc).get now req.userID req.orgID = (some p, c)) :
      Steps r s (.get t now) ((s.withMemory req.proc c).goto t req
        (.served (.ok ⟨p, s.memoryReads req.proc (cacheKey req.userID req.orgID)⟩) true))
  | missed (t : Nat) (now : Time) (req : PermissionRequest) (resolver : ResolverState)
      (hreq : s.requests t = some ⟨req, .get⟩)
      (hcall : s.resolver.step r (.call t req.call) = some resolver) :
      Steps r s (.get t now) ({ s with resolver }.goto t req .resolving)
  | resolved (t : Nat) (req : PermissionRequest) (c : Call) (owner : Bool) (verdict : Verdict)
      (hreq : s.requests t = some ⟨req, .resolving⟩)
      (hreturned : s.resolver.threads t = some ⟨c, .returned owner verdict⟩) :
      Steps r s (.resolved t) (s.goto t req (afterResolve req verdict))
  | stored (t : Nat) (now : Time) (visit : List String) (req : PermissionRequest) (v : Resolved)
      (hreq : s.requests t = some ⟨req, .set v⟩) :
      Steps r s (.set t now visit) (s.stepSet t req v now visit)
  | resolver (e : ResolverEvent) (resolver : ResolverState)
      (hstep : s.resolver.step r e = some resolver) : Steps r s (.resolver e) { s with resolver }
  | dropped (e : AccessEvent) (proc : Nat) (keep : String × CacheEntry → Bool) :
      Steps r s e (s.withMemory proc
        { s.memory proc with entries := (s.memory proc).entries.filter keep })

theorem step_cases (h : s.step r e = some s') : Steps r s e s' := by
  cases e with simp only [step] at h
  | request t req =>
    split at h
    · rename_i hidle
      cases h
      exact .request t req hidle
    · cases h
  | get t now =>
    split at h
    · rename_i req hreq
      have hmiss : s.startResolve r t req = some s' → Steps r s (.get t now) s' := by
        intro hstart
        obtain ⟨resolver, hcall, rfl⟩ := Option.map_eq_some_iff.mp hstart
        exact .missed t now req resolver hreq hcall
      unfold stepGet at h
      split at h
      · exact hmiss h
      · rename_i hbypass
        split at h
        · rename_i p c hget
          cases h
          exact .hit t now req p c hreq (by simpa using hbypass) hget
        · exact hmiss h
    · cases h
  | resolved t =>
    split at h
    · rename_i req hreq
      unfold stepResolved at h
      split at h
      · rename_i c owner verdict hreturned
        cases h
        exact .resolved t req c owner verdict hreq hreturned
      · cases h
    · cases h
  | set t now visit =>
    split at h
    · rename_i req v hreq
      cases h
      exact .stored t now visit req v hreq
    · cases h
  | resolver e' =>
    obtain ⟨resolver, hstep, rfl⟩ := Option.map_eq_some_iff.mp h
    exact .resolver e' resolver hstep
  | dropUser | dropOrg | cleanup =>
    cases h
    exact .dropped _ _ _

theorem requests_goto {t t₀ : Nat} {req : PermissionRequest} {pc : RequestPc} {th : RequestThread}
    (h : (s.goto t₀ req pc).requests t = some th) :
    (t = t₀ ∧ th = ⟨req, pc⟩) ∨ s.requests t = some th := by
  by_cases ht : t = t₀
  · subst ht
    simp only [goto, update_self, Option.some.injEq] at h
    exact .inl ⟨rfl, h.symm⟩
  · simp only [goto, update_of_ne ht] at h
    exact .inr h

/-- What a request is doing after an event: the same as before, or what follows its step. -/
inductive RequestMoves (r : Resolver) (s : AccessState) (e : AccessEvent) (s' : AccessState)
    (t : Nat) : RequestThread → Prop
  | same {th : RequestThread} (hth : s.requests t = some th) : RequestMoves r s e s' t th
  | started {req : PermissionRequest} (he : e = .request t req) :
      RequestMoves r s e s' t ⟨req, .get⟩
  | hit {req : PermissionRequest} {now : Time} {p : ResolvedPermissions} {c : MemoryCache}
      (hreq : s.requests t = some ⟨req, .get⟩) (hbypass : req.bypassCache = false)
      (hget : (s.memory req.proc).get now req.userID req.orgID = (some p, c)) :
      RequestMoves r s e s' t ⟨req, .served
        (.ok ⟨p, s.memoryReads req.proc (cacheKey req.userID req.orgID)⟩) true⟩
  | missed {req : PermissionRequest} (hreq : s.requests t = some ⟨req, .get⟩)
      (hcall : s.resolver.step r (.call t req.call) = some s'.resolver) :
      RequestMoves r s e s' t ⟨req, .resolving⟩
  | resolved {req : PermissionRequest} {c : Call} {owner : Bool} {verdict : Verdict}
      {pc : RequestPc}
      (hreq : s.requests t = some ⟨req, .resolving⟩)
      (hreturned : s.resolver.threads t = some ⟨c, .returned owner verdict⟩)
      (hsame : s'.resolver = s.resolver) (hpc : afterResolve req verdict = pc) :
      RequestMoves r s e s' t ⟨req, pc⟩
  | stored {req : PermissionRequest} {v : Resolved} (hreq : s.requests t = some ⟨req, .set v⟩) :
      RequestMoves r s e s' t ⟨req, .served (.ok v) false⟩

theorem requestMoves_goto {s₁ : AccessState} {t t₀ : Nat} {req : PermissionRequest} {pc : RequestPc}
    {th : RequestThread} (hsame : s₁.requests = s.requests)
    (hmove : RequestMoves r s e s' t₀ ⟨req, pc⟩)
    (h : (s₁.goto t₀ req pc).requests t = some th) : RequestMoves r s e s' t th := by
  rcases requests_goto h with ⟨rfl, rfl⟩ | hold
  · exact hmove
  · exact .same (hsame ▸ hold)

theorem request_cases (h : s.step r e = some s') {t : Nat} {th : RequestThread}
    (hth : s'.requests t = some th) : RequestMoves r s e s' t th := by
  cases step_cases h with
  | request => exact requestMoves_goto rfl (.started rfl) hth
  | hit t₀ now req p c hreq hbypass hget => exact requestMoves_goto rfl (.hit hreq hbypass hget) hth
  | missed t₀ now req resolver hreq hcall => exact requestMoves_goto rfl (.missed hreq hcall) hth
  | resolved t₀ req c owner verdict hreq hreturned =>
    exact requestMoves_goto rfl (.resolved hreq hreturned rfl rfl) hth
  | stored t₀ now visit req v hreq => exact requestMoves_goto rfl (.stored hreq) hth
  | resolver | dropped => exact .same hth

theorem resolver_of_step (h : s.step r e = some s') :
    s'.resolver = s.resolver ∨ ∃ e', s.resolver.step r e' = some s'.resolver := by
  cases step_cases h with
  | request | hit | resolved | stored | dropped => exact .inl rfl
  | missed t now req resolver hreq hcall => exact .inr ⟨_, hcall⟩
  | resolver e' resolver hstep => exact .inr ⟨e', hstep⟩

theorem resolver_invariant {I : ResolverState → Prop}
    (hI : ∀ s e s', I s → s.step r e = some s' → I s') (hs : I s.resolver)
    (h : s.step r e = some s') : I s'.resolver := by
  rcases resolver_of_step h with hsame | ⟨e', hstep⟩
  · rwa [hsame]
  · exact hI _ _ _ hs hstep

theorem run_resolver {events : List ResolverEvent} {resolver : ResolverState}
    (h : run (ResolverState.step r) s.resolver events = some resolver) :
    run (step r) s (events.map .resolver) = some { s with resolver } := by
  induction events generalizing s with
  | nil =>
    cases h
    rfl
  | cons e rest ih =>
    rw [run_cons, Option.bind_eq_some_iff] at h
    obtain ⟨resolver₁, he, hrest⟩ := h
    have hstep : s.step r (.resolver e) = some { s with resolver := resolver₁ } := by
      simp [step, he]
    rw [List.map_cons, run_cons, hstep, Option.bind_some]
    exact ih (s := { s with resolver := resolver₁ }) hrest

end AccessState

end PrivacySuite.Rbac
