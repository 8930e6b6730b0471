import PrivacySuite.Rbac.PermissionCodec

/-!
# The three permission caches

Resolved permissions are kept in the process (`internal/rbac/cache.go`), in the
shared table (`internal/db/rbac_store_cache.go`) and in Redis
(`internal/redis/cache.go`). Each of them decides on its own how long an entry is
served: the first by the smaller of a lifetime and the permissions' expiry, the
second by the expiry alone, the third by a lifetime alone.

`NeverStale` is what a time-boxed membership needs of a cache, and
`neverStale_iff` reduces it to single writes: a run of the cache serves nothing
that some one write did not put there.
-/

namespace PrivacySuite.Rbac

open Go Concurrency PermissionCodec List

/-! ## The shared table -/

/-- The unique columns of `effective_permissions_cache`. -/
structure RowKey where
  userID : String
  orgID : String
  deriving DecidableEq, Repr

structure SqlCache where
  rows : List (RowKey × CachedRow) := []

namespace SqlCache

/-- Insert, or replace the row of the user and organization. -/
def setCachedPermissions (c : SqlCache) (p : ResolvedPermissions) : SqlCache where
  rows := mapSet c.rows ⟨p.userID, p.orgID⟩ (row p)

/-- The expiry column is compared with the clock time of `now`. -/
def getCachedPermissions (c : SqlCache) (now : Time) (userID orgID : String) :
    Except String (Option ResolvedPermissions) :=
  match c.rows.lookup ⟨userID, orgID⟩ with
  | none => .ok none
  | some r =>
      if now.wallClock < r.expiresAt then
        match ofRow r with
        | some p => .ok (some p)
        | none => .error "failed to unmarshal contract_access"
      else .ok none

def cleanupExpiredCache (c : SqlCache) (now : Time) : SqlCache where
  rows := c.rows.filter fun entry => !decide (entry.2.expiresAt < now.wallClock)

end SqlCache

/-! ## Redis -/

/-- A value under a Redis key; `deadline = none` never expires. -/
structure RedisValue where
  data : Json
  deadline : Option Int

structure RedisCache where
  values : List (String × RedisValue) := []
  ttl : Int

namespace RedisCache

def key (userID orgID : String) : String := "pp:rbac:" ++ userID ++ ":" ++ orgID

/-- When the client asks Redis to drop a value: after whole milliseconds, at least
one; a duration that is not positive sets no expiry. -/
def expiry (now ttl : Int) : Option Int :=
  if ttl ≤ 0 then none else some (now + max 1000 (ttl / 1000 * 1000))

/-- Redis still has the value: it drops one when the time is past its deadline. -/
def live (v : RedisValue) (now : Int) : Bool :=
  match v.deadline with
  | none => true
  | some deadline => decide (now ≤ deadline)

def setWithTTL (text : TimeText) (c : RedisCache) (now : Int) (p : ResolvedPermissions)
    (ttl : Int) : RedisCache :=
  { c with values := mapSet c.values (key p.userID p.orgID) ⟨document text p, expiry now ttl⟩ }

def set (text : TimeText) (c : RedisCache) (now : Int) (p : ResolvedPermissions) : RedisCache :=
  setWithTTL text c now p c.ttl

def get (text : TimeText) (c : RedisCache) (now : Int) (userID orgID : String) :
    Option ResolvedPermissions :=
  match c.values.lookup (key userID orgID) with
  | none => none
  | some v => if live v now then asPermissions text v.data else none

end RedisCache

/-! ## The cache of the process -/

structure CacheEntry where
  permissions : ResolvedPermissions
  expiresAt : Time
  lastAccess : Int

structure MemoryCache where
  entries : List (String × CacheEntry) := []
  ttl : Int
  maxEntries : Nat

def cacheKey (userID orgID : String) : String := userID ++ ":" ++ orgID

namespace MemoryCache

/-- A hit records when it was. -/
def get (c : MemoryCache) (now : Time) (userID orgID : String) :
    Option ResolvedPermissions × MemoryCache :=
  match c.entries.lookup (cacheKey userID orgID) with
  | none => (none, c)
  | some entry =>
      if now.after entry.expiresAt then (none, c)
      else (some entry.permissions,
        { c with entries :=
            mapSet c.entries (cacheKey userID orgID) { entry with lastAccess := now.instant } })

def evictSampleSize : Nat := 8

/-- The key used longest ago in a sample, the first of several. -/
def oldest (sample : List (String × Int)) : Option String :=
  (sample.foldl (fun acc candidate =>
    match acc with
    | none => some candidate
    | some best => if candidate.2 < best.2 then some candidate else some best) none).map Prod.fst

/-- `visit` is the order in which the map iteration meets the keys. -/
def evictLRU (c : MemoryCache) (visit : List String) : MemoryCache :=
  match oldest ((visit.filterMap fun key =>
      (c.entries.lookup key).map fun entry => (key, entry.lastAccess)).take evictSampleSize) with
  | none => c
  | some victim =>
      if victim = "" then c
      else { c with entries := c.entries.filter fun entry => entry.1 ≠ victim }

def makeRoom (c : MemoryCache) (key : String) (visit : List String) : MemoryCache :=
  if (c.entries.lookup key).isNone ∧ c.maxEntries ≤ c.entries.length then c.evictLRU visit else c

/-- When an entry expires: its lifetime, capped by the permissions' own expiry. -/
def entryExpiry (now : Time) (p : ResolvedPermissions) (ttl : Int) : Time :=
  if !p.expiresAt.isZero && p.expiresAt.before (now.add ttl) then p.expiresAt else now.add ttl

def setWithTTL (c : MemoryCache) (now : Time) (visit : List String) (p : ResolvedPermissions)
    (ttl : Int) : MemoryCache :=
  { c with
    entries := mapSet (c.makeRoom (cacheKey p.userID p.orgID) visit).entries
      (cacheKey p.userID p.orgID)
      { permissions := p, expiresAt := entryExpiry now p ttl, lastAccess := now.instant } }

def set (c : MemoryCache) (now : Time) (visit : List String) (p : ResolvedPermissions) :
    MemoryCache :=
  c.setWithTTL now visit p c.ttl

def cleanup (c : MemoryCache) (now : Time) : MemoryCache :=
  { c with entries := c.entries.filter fun entry => !now.after entry.2.expiresAt }

end MemoryCache

/-! ## Runs -/

/-- One call of a cache, with the time it is made at. -/
inductive CacheEvent where
  | set (now : Int) (perms : ResolvedPermissions) (visit : List String)
  | setWithTTL (now : Int) (perms : ResolvedPermissions) (ttl : Int) (visit : List String)
  | get (now : Int) (userID orgID : String)
  | cleanup (now : Int)

/-- A write: when, what, and for how long. -/
structure Write where
  now : Int
  perms : ResolvedPermissions
  ttl : Int

namespace CacheEvent

def time : CacheEvent → Int
  | .set now _ _ => now
  | .setWithTTL now _ _ _ => now
  | .get now _ _ => now
  | .cleanup now => now

/-- The write an event makes; `Set` writes with the lifetime of the cache. -/
def write (ttl : Int) : CacheEvent → Option Write
  | .set now perms _ => some ⟨now, perms, ttl⟩
  | .setWithTTL now perms ttl _ => some ⟨now, perms, ttl⟩
  | .get _ _ _ => none
  | .cleanup _ => none

theorem time_of_write {ttl : Int} {e : CacheEvent} {w : Write} (h : e.write ttl = some w) :
    w.now = e.time := by
  cases e <;> simp only [write, Option.some.injEq, reduceCtorEq] at h <;> subst h <;> rfl

end CacheEvent

/-- The process cache, in a process `zone` from UTC. -/
def MemoryCache.step (zone : Int) (c : MemoryCache) : CacheEvent → MemoryCache
  | .set now perms visit => c.set ⟨now, zone⟩ visit perms
  | .setWithTTL now perms ttl visit => c.setWithTTL ⟨now, zone⟩ visit perms ttl
  | .get now userID orgID => (c.get ⟨now, zone⟩ userID orgID).2
  | .cleanup now => c.cleanup ⟨now, zone⟩

/-- The shared table. A row has no lifetime of its own. -/
def SqlCache.step (zone : Int) (c : SqlCache) : CacheEvent → SqlCache
  | .set _ perms _ => c.setCachedPermissions perms
  | .setWithTTL _ perms _ _ => c.setCachedPermissions perms
  | .get _ _ _ => c
  | .cleanup now => c.cleanupExpiredCache ⟨now, zone⟩

def RedisCache.step (text : TimeText) (c : RedisCache) : CacheEvent → RedisCache
  | .set now perms _ => c.set text now perms
  | .setWithTTL now perms ttl _ => c.setWithTTL text now perms ttl
  | .get _ _ _ => c
  | .cleanup _ => c

abbrev Reader (σ : Type) := σ → Int → String → String → Option ResolvedPermissions

def MemoryCache.reader (zone : Int) : Reader MemoryCache := fun c t userID orgID =>
  (c.get ⟨t, zone⟩ userID orgID).1

def SqlCache.reader (zone : Int) : Reader SqlCache := fun c t userID orgID =>
  match c.getCachedPermissions ⟨t, zone⟩ userID orgID with
  | .ok found => found
  | .error _ => none

def RedisCache.reader (text : TimeText) : Reader RedisCache := RedisCache.get text

/-- Whatever calls came before, in the order of their times and with writes from
`allowed` only, no permissions are served at or after their expiry. -/
def NeverStale {σ : Type} (init : σ) (step : σ → CacheEvent → σ) (read : Reader σ) (ttl : Int)
    (allowed : Write → Prop) : Prop :=
  ∀ (events : List CacheEvent) (t : Int) (userID orgID : String) (p : ResolvedPermissions),
    events.Pairwise (fun e e' => e.time ≤ e'.time) → (∀ e ∈ events, e.time ≤ t) →
    (∀ e ∈ events, ∀ w, e.write ttl = some w → allowed w) →
    read (events.foldl step init) t userID orgID = some p → t < p.expiresAt.instant

section Origin

variable {σ α : Type} {init : σ} {step : σ → CacheEvent → σ} {read : Reader σ} {ttl : Int}
variable {Inv : σ → Prop} {Stored : σ → α → Prop} {made : Write → α}

theorem foldl_inv (hinit : Inv init) (hinv : ∀ c e, Inv c → Inv (step c e))
    (events : List CacheEvent) : Inv (events.foldl step init) :=
  List.foldlRecOn events step hinit fun c hc e _ => hinv c e hc

/-- Events only keep what is stored or store what their own write makes, so
everything stored goes back to a write. -/
theorem stored_origin (hinit : Inv init) (hinv : ∀ c e, Inv c → Inv (step c e))
    (hempty : ∀ x, ¬ Stored init x)
    (hstep : ∀ c e x, Inv c → Stored (step c e) x →
      Stored c x ∨ ∃ w, e.write ttl = some w ∧ x = made w)
    (events : List CacheEvent) {x : α} (h : Stored (events.foldl step init) x) :
    ∃ e ∈ events, ∃ w, e.write ttl = some w ∧ x = made w := by
  induction events using List.reverseRecOn with
  | nil => exact absurd h (hempty x)
  | append_singleton before e ih =>
    rw [foldl_concat] at h
    rcases hstep _ _ _ (foldl_inv hinit hinv before) h with hold | hnew
    · obtain ⟨e', he', hw⟩ := ih hold
      exact ⟨e', mem_append_left _ he', hw⟩
    · exact ⟨e, by simp, hnew⟩

theorem neverStale_iff (Inv : σ → Prop) (Stored : σ → α → Prop) (made : Write → α)
    (servedAt : α → Int → Prop) (expiry : α → Int) (hinit : Inv init)
    (hinv : ∀ c e, Inv c → Inv (step c e)) (hempty : ∀ x, ¬ Stored init x)
    (hstep : ∀ c e x, Inv c → Stored (step c e) x →
      Stored c x ∨ ∃ w, e.write ttl = some w ∧ x = made w)
    (hread : ∀ c t userID orgID p, Inv c → read c t userID orgID = some p →
      ∃ x, Stored c x ∧ (∀ w, x = made w → servedAt x t ∧ p.expiresAt.instant = expiry x))
    (hserve : ∀ w t, servedAt (made w) t →
      ∃ p, read (step init (.setWithTTL w.now w.perms w.ttl [])) t w.perms.userID w.perms.orgID =
        some p ∧ p.expiresAt.instant = expiry (made w))
    (allowed : Write → Prop) :
    NeverStale init step read ttl allowed ↔
      ∀ w, allowed w → ∀ t, w.now ≤ t → servedAt (made w) t → t < expiry (made w) := by
  constructor
  · -- one write and one read show a bad write
    intro h w hw t ht hserved
    obtain ⟨p, hp, hexpiry⟩ := hserve w t hserved
    rw [← hexpiry]
    refine h [.setWithTTL w.now w.perms w.ttl []] t _ _ p (by simp) ?_ ?_ hp
    · intro e he
      rw [mem_singleton.mp he]
      exact ht
    · intro e he w' hw'
      rw [mem_singleton.mp he] at hw'
      cases hw'
      exact hw
  · intro h events t userID orgID p _ htimes hwrites hp
    obtain ⟨x, hstored, hx⟩ := hread _ _ _ _ _ (foldl_inv hinit hinv events) hp
    obtain ⟨e, he, w, hw, rfl⟩ := stored_origin hinit hinv hempty hstep events hstored
    obtain ⟨hserved, hexpiry⟩ := hx w rfl
    rw [hexpiry]
    refine h w (hwrites e he w hw) t ?_ hserved
    rw [CacheEvent.time_of_write hw]
    exact htimes e he

end Origin

/-! ## Which writes each cache serves too long -/

theorem served_before_iff {now deadline expiry : Int} :
    (∀ t, now ≤ t → t < deadline → t < expiry) ↔ deadline ≤ max now expiry := by
  constructor
  · intro h
    by_contra hlate
    have := h (max now expiry) (by omega) (by omega)
    omega
  · intro h t hnow ht
    omega

theorem served_through_iff {now deadline expiry : Int} :
    (∀ t, now ≤ t → t ≤ deadline → t < expiry) ↔ deadline < max now expiry := by
  rw [← Int.add_one_le_iff, ← served_before_iff]
  simp only [Int.lt_add_one_iff]

namespace MemoryCache

variable {zone : Int}

/-- The permissions of an entry, and until when it is served. -/
abbrev Kept := ResolvedPermissions × Time

def Stored (c : MemoryCache) (x : Kept) : Prop :=
  ∃ entry ∈ c.entries, (entry.2.permissions, entry.2.expiresAt) = x

def made (zone : Int) (w : Write) : Kept := (w.perms, entryExpiry ⟨w.now, zone⟩ w.perms w.ttl)

theorem entries_evictLRU_subset (c : MemoryCache) (visit : List String) :
    (c.evictLRU visit).entries ⊆ c.entries := by
  unfold evictLRU
  split
  · exact List.Subset.refl _
  · split
    · exact List.Subset.refl _
    · exact filter_sublist.subset

theorem entries_makeRoom_subset (c : MemoryCache) (key : String) (visit : List String) :
    (c.makeRoom key visit).entries ⊆ c.entries := by
  unfold makeRoom
  split
  · exact entries_evictLRU_subset c visit
  · exact List.Subset.refl _

variable {c : MemoryCache} {x : Kept}

variable {p : ResolvedPermissions} {ttl t : Int} {userID orgID : String}

theorem stored_setWithTTL {now : Int} {visit : List String}
    (h : (c.setWithTTL ⟨now, zone⟩ visit p ttl).Stored x) :
    c.Stored x ∨ x = made zone ⟨now, p, ttl⟩ := by
  obtain ⟨entry, hmem, rfl⟩ := h
  rcases mem_of_mem_mapSet hmem with hold | rfl
  · exact .inl ⟨entry, entries_makeRoom_subset _ _ _ hold, rfl⟩
  · exact .inr rfl

theorem stored_get {now : Time} (h : (c.get now userID orgID).2.Stored x) : c.Stored x := by
  unfold get at h
  split at h
  · exact h
  · rename_i entry hentry
    split at h
    · exact h
    · -- a hit rewrites the entry with another access time only
      obtain ⟨entry', hmem, rfl⟩ := h
      rcases mem_of_mem_mapSet hmem with hold | rfl
      · exact ⟨entry', hold, rfl⟩
      · exact ⟨_, mem_of_lookup hentry, rfl⟩

theorem stored_step {e : CacheEvent} (hc : c.ttl = ttl) (h : (c.step zone e).Stored x) :
    c.Stored x ∨ ∃ w, e.write ttl = some w ∧ x = made zone w := by
  cases e with
  | set now perms visit =>
    refine (stored_setWithTTL h).imp_right fun hx => ⟨_, rfl, ?_⟩
    rwa [hc] at hx
  | setWithTTL now perms ttl visit =>
    exact (stored_setWithTTL h).imp_right fun hx => ⟨_, rfl, hx⟩
  | get now userID orgID => exact .inl (stored_get h)
  | cleanup now =>
    obtain ⟨entry, hmem, rfl⟩ := h
    exact .inl ⟨entry, mem_of_mem_filter hmem, rfl⟩

theorem ttl_step (c : MemoryCache) (e : CacheEvent) : (c.step zone e).ttl = c.ttl := by
  cases e with
  | set | setWithTTL | cleanup => rfl
  | get now userID orgID =>
    show (c.get ⟨now, zone⟩ userID orgID).2.ttl = c.ttl
    unfold get
    repeat' split
    all_goals rfl

/-- An entry is served up to and including its expiry. -/
theorem reader_some (h : reader zone c t userID orgID = some p) :
    ∃ x, c.Stored x ∧ t ≤ x.2.instant ∧ p = x.1 := by
  unfold reader get at h
  split at h
  · cases h
  · rename_i entry hentry
    split at h
    · cases h
    · rename_i hafter
      refine ⟨_, ⟨_, mem_of_lookup hentry, rfl⟩, ?_, ?_⟩
      · simpa [Time.after] using hafter
      · exact (Option.some.inj h).symm

theorem reader_written (ttl : Int) (maxEntries : Nat) (w : Write)
    (h : t ≤ (made zone w).2.instant) :
    reader zone (step zone ⟨[], ttl, maxEntries⟩ (.setWithTTL w.now w.perms w.ttl [])) t
      w.perms.userID w.perms.orgID = some w.perms := by
  have hroom : (makeRoom ⟨[], ttl, maxEntries⟩ (cacheKey w.perms.userID w.perms.orgID) []).entries =
      [] := eq_nil_of_subset_nil (entries_makeRoom_subset _ _ _)
  have hafter : Time.after ⟨t, zone⟩ (entryExpiry ⟨w.now, zone⟩ w.perms w.ttl) = false := by
    have hle : t ≤ (entryExpiry ⟨w.now, zone⟩ w.perms w.ttl).instant := h
    simpa [Time.after] using hle
  simp [reader, step, setWithTTL, get, hroom, lookup_mapSet_self, hafter]

/-- The process cache, write by write. -/
theorem neverStale_iff (zone ttl : Int) (maxEntries : Nat) (allowed : Write → Prop) :
    NeverStale ⟨[], ttl, maxEntries⟩ (step zone) (reader zone) ttl allowed ↔
      ∀ w, allowed w →
        (entryExpiry ⟨w.now, zone⟩ w.perms w.ttl).instant <
          max w.now w.perms.expiresAt.instant := by
  rw [Rbac.neverStale_iff (fun c => c.ttl = ttl) Stored (made zone) (fun x t => t ≤ x.2.instant)
    (fun x => x.1.expiresAt.instant) rfl (fun c e hc => by rw [ttl_step, hc])
    (fun x h => by simp [Stored] at h)
    (fun c e x hc h => stored_step hc h)]
  · exact forall₂_congr fun w _ => served_through_iff
  · intro c t userID orgID p _ h
    obtain ⟨x, hx, ht, rfl⟩ := reader_some h
    exact ⟨x, hx, fun w _ => ⟨ht, rfl⟩⟩
  · intro w t ht
    exact ⟨w.perms, reader_written ttl maxEntries w ht, rfl⟩

end MemoryCache

namespace SqlCache

variable {zone : Int}

def Stored (c : SqlCache) (x : CachedRow) : Prop := ∃ entry ∈ c.rows, entry.2 = x

variable {c : SqlCache} {now : Time} {p : ResolvedPermissions}

theorem stored_step {ttl : Int} {e : CacheEvent} {x : CachedRow} (h : (c.step zone e).Stored x) :
    c.Stored x ∨ ∃ w, e.write ttl = some w ∧ x = row w.perms := by
  obtain ⟨entry, hmem, rfl⟩ := h
  cases e with
  | set | setWithTTL =>
    rcases mem_of_mem_mapSet hmem with hold | rfl
    · exact .inl ⟨entry, hold, rfl⟩
    · exact .inr ⟨_, rfl, rfl⟩
  | get now userID orgID => exact .inl ⟨entry, hmem, rfl⟩
  | cleanup now => exact .inl ⟨entry, mem_of_mem_filter hmem, rfl⟩

theorem lookup_of_getCachedPermissions {userID orgID : String}
    (h : c.getCachedPermissions now userID orgID = .ok (some p)) :
    ∃ x, c.rows.lookup ⟨userID, orgID⟩ = some x ∧ now.wallClock < x.expiresAt ∧
      ofRow x = some p := by
  unfold getCachedPermissions at h
  split at h
  · cases h
  · rename_i x hx
    split at h
    · rename_i hlive
      split at h
      · rename_i q hq
        cases h
        exact ⟨x, hx, hlive, hq⟩
      · cases h
    · cases h

theorem getCachedPermissions_written (c : SqlCache) {q : ResolvedPermissions}
    (hq : ofRow (row p) = some q) (h : now.wallClock < p.expiresAt.wallClock) :
    (c.setCachedPermissions p).getCachedPermissions now p.userID p.orgID = .ok (some q) := by
  have hlive : now.wallClock < (row p).expiresAt := h
  simp [getCachedPermissions, setCachedPermissions, lookup_mapSet_self, hlive, hq]

/-- The shared table, write by write. In a process west of UTC the clock the rows are
compared with runs behind. -/
theorem neverStale_iff (zone ttl : Int) (allowed : Write → Prop) :
    NeverStale ⟨[]⟩ (step zone) (reader zone) ttl allowed ↔
      ∀ w, allowed w → 0 ≤ zone ∨ w.perms.expiresAt.wallClock ≤ w.now + zone := by
  rw [Rbac.neverStale_iff (fun _ => True) Stored (fun w => row w.perms)
    (fun x t => t + zone < x.expiresAt) (fun x => x.expiresAt) trivial (fun _ _ _ => trivial)
    (fun x h => by simp [Stored] at h) (fun c e x _ h => stored_step h)]
  · refine forall₂_congr fun w _ => ?_
    simp only [row, ← lt_sub_iff_add_lt, served_before_iff]
    omega
  · intro c t userID orgID p _ h
    have hget : c.getCachedPermissions ⟨t, zone⟩ userID orgID = .ok (some p) := by
      unfold reader at h
      split at h
      · rename_i found hfound
        rw [hfound, h]
      · cases h
    obtain ⟨x, hx, hlive, hp⟩ := lookup_of_getCachedPermissions hget
    refine ⟨x, ⟨_, mem_of_lookup hx, rfl⟩, ?_⟩
    rintro w rfl
    obtain ⟨q, hq, hexpiry⟩ := ofRow_row w.perms
    rw [hq] at hp
    cases hp
    exact ⟨hlive, by rw [hexpiry]; rfl⟩
  · intro w t ht
    obtain ⟨q, hq, hexpiry⟩ := ofRow_row w.perms
    refine ⟨q, ?_, by rw [hexpiry]; rfl⟩
    show (match (setCachedPermissions ⟨[]⟩ w.perms).getCachedPermissions ⟨t, zone⟩ w.perms.userID
      w.perms.orgID with | .ok found => found | .error _ => none) = some q
    have hlive : (⟨t, zone⟩ : Time).wallClock < w.perms.expiresAt.wallClock := ht
    rw [getCachedPermissions_written ⟨[]⟩ hq hlive]

end SqlCache

namespace RedisCache

variable {text : TimeText}

def Stored (c : RedisCache) (x : RedisValue) : Prop := ∃ entry ∈ c.values, entry.2 = x

def made (text : TimeText) (w : Write) : RedisValue := ⟨document text w.perms, expiry w.now w.ttl⟩

variable {c : RedisCache} {p : ResolvedPermissions} {ttl : Int}

variable {now t : Int} {x : RedisValue}

theorem stored_setWithTTL (h : (c.setWithTTL text now p ttl).Stored x) :
    c.Stored x ∨ x = made text ⟨now, p, ttl⟩ := by
  obtain ⟨entry, hmem, rfl⟩ := h
  rcases mem_of_mem_mapSet hmem with hold | rfl
  · exact .inl ⟨entry, hold, rfl⟩
  · exact .inr rfl

theorem stored_step {e : CacheEvent} (hc : c.ttl = ttl) (h : (c.step text e).Stored x) :
    c.Stored x ∨ ∃ w, e.write ttl = some w ∧ x = made text w := by
  cases e with
  | set now perms visit =>
    refine (stored_setWithTTL h).imp_right fun hx => ⟨_, rfl, ?_⟩
    rwa [hc] at hx
  | setWithTTL now perms ttl visit =>
    exact (stored_setWithTTL h).imp_right fun hx => ⟨_, rfl, hx⟩
  | get now userID orgID => exact .inl h
  | cleanup now => exact .inl h

theorem get_some {userID orgID : String} (h : c.get text t userID orgID = some p) :
    ∃ x, c.Stored x ∧ live x t = true ∧ asPermissions text x.data = some p := by
  unfold get at h
  split at h
  · cases h
  · rename_i x hx
    split at h
    · rename_i hlive
      exact ⟨x, ⟨_, mem_of_lookup hx, rfl⟩, hlive, h⟩
    · cases h

theorem get_written (c : RedisCache) (h : live ⟨document text p, expiry now ttl⟩ t = true) :
    (c.setWithTTL text now p ttl).get text t p.userID p.orgID =
      asPermissions text (document text p) := by
  simp [get, setWithTTL, lookup_mapSet_self, h]

/-- Redis, write by write: the lifetime is all that ends an entry. -/
theorem neverStale_iff (text : TimeText) (ttl : Int) (allowed : Write → Prop) :
    NeverStale ⟨[], ttl⟩ (step text) (reader text) ttl allowed ↔
      ∀ w, allowed w →
        ∃ deadline, expiry w.now w.ttl = some deadline ∧
          deadline < max w.now w.perms.expiresAt.instant := by
  rw [Rbac.neverStale_iff (fun c => c.ttl = ttl) Stored (fun w => (made text w))
    (fun x t => live x t = true)
    (fun x => ((asPermissions text x.data).map (·.expiresAt.instant)).getD 0) rfl
    (fun c e hc => by cases e <;> exact hc) (fun x h => by simp [Stored] at h)
    (fun c e x hc h => stored_step hc h)]
  · refine forall₂_congr fun w _ => ?_
    obtain ⟨q, hq, hexpiry, -⟩ := asPermissions_document text w.perms
    simp only [made, hq, Option.map_some, Option.getD_some, hexpiry, live]
    cases expiry w.now w.ttl with
    | none =>
      -- the entry stays for good, past any expiry
      simp only [reduceCtorEq, false_and, exists_false, iff_false]
      intro h
      have := h (max w.now w.perms.expiresAt.instant) (by omega) trivial
      omega
    | some deadline =>
      simp only [Option.some.injEq, exists_eq_left', decide_eq_true_eq]
      exact served_through_iff
  · intro c t userID orgID p _ h
    obtain ⟨x, hx, hlive, hp⟩ := get_some h
    exact ⟨x, hx, fun w _ => ⟨hlive, by simp [hp]⟩⟩
  · intro w t ht
    obtain ⟨q, hq, -⟩ := asPermissions_document text w.perms
    refine ⟨q, ?_, by simp [made, hq]⟩
    show (setWithTTL text ⟨[], ttl⟩ w.now w.perms w.ttl).get text t _ _ = some q
    rw [get_written _ ht, hq]

end RedisCache

/-! ## The three caches together -/

/-- When no cache serves permissions at or after their expiry. The process cache has
to let go before the expiry, because it still serves at that very instant; the
shared table has to be read in a process that is not west of UTC, or hold rows that
have run out; Redis, which serves at that instant too, has to be given a lifetime that
ends before the expiry, because it is the only thing that ends an entry there. -/
theorem permissionCaches_neverStale_iff (zone ttl : Int) (maxEntries : Nat) (text : TimeText)
    (allowed : Write → Prop) :
    (NeverStale ⟨[], ttl, maxEntries⟩ (MemoryCache.step zone) (MemoryCache.reader zone) ttl
        allowed ↔
      ∀ w, allowed w → (MemoryCache.entryExpiry ⟨w.now, zone⟩ w.perms w.ttl).instant <
        max w.now w.perms.expiresAt.instant) ∧
    (NeverStale ⟨[]⟩ (SqlCache.step zone) (SqlCache.reader zone) ttl allowed ↔
      ∀ w, allowed w → 0 ≤ zone ∨ w.perms.expiresAt.wallClock ≤ w.now + zone) ∧
    (NeverStale ⟨[], ttl⟩ (RedisCache.step text) (RedisCache.reader text) ttl allowed ↔
      ∀ w, allowed w → ∃ deadline, RedisCache.expiry w.now w.ttl = some deadline ∧
        deadline < max w.now w.perms.expiresAt.instant) :=
  ⟨MemoryCache.neverStale_iff zone ttl maxEntries allowed, SqlCache.neverStale_iff zone ttl allowed,
    RedisCache.neverStale_iff text ttl allowed⟩

/-- Times as their number of microseconds. -/
def microseconds : TimeText where
  format t := t.instant.repr
  parse s := s.toInt?.map fun instant => ⟨instant, 0⟩
  parse_format t := ⟨⟨t.instant, 0⟩, by simp [Int.toInt?_repr], rfl⟩

/-- A membership that ends after one minute, written to Redis under the cache
lifetime of five: it is still served a minute after its end. -/
theorem redis_serves_expired :
    ((RedisCache.get microseconds
      (RedisCache.set microseconds ⟨[], 5 * minute⟩ 0
        { userID := "alice", orgID := "org", computedAt := ⟨0, 0⟩, expiresAt := ⟨minute, 0⟩ })
      (2 * minute) "alice" "org").map (·.expiresAt.instant)) = some minute := by
  obtain ⟨q, hq, hexpiry, -⟩ := asPermissions_document microseconds
    { userID := "alice", orgID := "org", computedAt := ⟨0, 0⟩, expiresAt := ⟨minute, 0⟩ }
  unfold RedisCache.set
  rw [RedisCache.get_written ⟨[], 5 * minute⟩ (by decide), hq]
  exact congrArg some hexpiry

/-- Permissions the resolver computed, written and read back before they expire,
answer as before exactly when no contract has an empty function list: an empty list
allows no function, and is read back as the nil list, which allows all. -/
theorem cachedPermissions_sameAnswers_iff {r : Resolver} {p : ResolvedPermissions}
    (hp : r.CanCompute p) (text : TimeText) (sql : SqlCache) (redis : RedisCache) {now : Time}
    (hsql : now.wallClock < p.expiresAt.wallClock) {written ttl t : Int}
    (hredis : ∀ deadline, RedisCache.expiry written ttl = some deadline → t ≤ deadline) :
    ((∃ q, (sql.setCachedPermissions p).getCachedPermissions now p.userID p.orgID = .ok (some q) ∧
        SameAnswers p.toEffectivePermissions q.toEffectivePermissions) ↔
      NoEmptyFunctionList p.toEffectivePermissions) ∧
    ((∃ q, (redis.setWithTTL text written p ttl).get text t p.userID p.orgID = some q ∧
        SameAnswers p.toEffectivePermissions q.toEffectivePermissions) ↔
      NoEmptyFunctionList p.toEffectivePermissions) := by
  have hkeys := (Resolver.computePermissions_ok hp).2.2
  constructor
  · obtain ⟨q, hq, hperms⟩ := ofRow_row_permissions hkeys.nodup
    rw [SqlCache.getCachedPermissions_written sql hq hsql]
    simp only [Except.ok.injEq, Option.some.injEq, exists_eq_left']
    rw [hperms]
    exact sameAnswers_readBack_iff hkeys rfl rfl rfl
  · obtain ⟨q, hq, -, hperms⟩ := asPermissions_document text p
    have hlive : RedisCache.live ⟨document text p, RedisCache.expiry written ttl⟩ t = true := by
      unfold RedisCache.live
      split
      · rfl
      · rename_i deadline hdeadline
        exact decide_eq_true (hredis deadline hdeadline)
    rw [RedisCache.get_written redis hlive, hq]
    simp only [Option.some.injEq, exists_eq_left']
    rw [hperms hkeys.nodup]
    exact sameAnswers_readBack_iff hkeys rfl rfl rfl

/-- The transfers to the member. -/
def transfersIn : EventRulesField where
  rules := [{
    topic0 := "0xddf252ad1be2c89b69c2b068fc378daa952ba7f163c4a11628f55a4df523b3ef"
    paramRules := [⟨1, "self"⟩]
    name := "Transfer" }]

/-- One member of one group, with grants on a token and on a vault. -/
def grantAnswers (functions : Option (List FunctionRule)) : (q : Query) → Answer q
  | .listUserMembershipsInOrg _ orgID =>
      .ok [{ group := { id := "traders", orgID } }]
  | .listContracts _ => .ok []
  | .getGroupAccessBatch _ =>
      .ok [("traders",
        { allowedMethods := ["eth_call", "eth_sendTransaction"], claims := [.deploy] })]
  | .listContractGrantsBatch _ =>
      .ok [("traders", [{ contractID := "token", functions, eventRules := some transfersIn },
        { contractID := "vault", eventRules := some { wildcard := true } }])]
  | .getContractsByIDs _ =>
      .ok [("token", { id := "token", orgID := "org", address := "0xAB" }),
        ("vault", { id := "vault", orgID := "org", address := "0xCD" })]
  | .now => ⟨0, 0⟩

def grantPermissions (functions : Option (List FunctionRule)) : ResolvedPermissions :=
  { userID := "alice", orgID := "org", computedAt := ⟨0, 0⟩, expiresAt := ⟨5 * minute, 0⟩
    allowedMethods := ["eth_call", "eth_sendTransaction"], claims := [.deploy]
    contractAccess :=
      [("0xab", { claims := [.deploy], functions, eventRules := some transfersIn }),
       ("0xcd", { claims := [.deploy], eventRules := some { wildcard := true } })] }

theorem canCompute_grant {functions : Option (List FunctionRule)}
    (h : (Resolver.computePermissions ⟨5 * minute, .ok⟩ "alice" "org").run.answeredBy
      (grantAnswers functions) = .ok (grantPermissions functions)) :
    Resolver.CanCompute ⟨5 * minute, .ok⟩ (grantPermissions functions) := by
  have hreturns := Reads.returns_answeredBy (grantAnswers functions)
    (Resolver.computePermissions ⟨5 * minute, .ok⟩ "alice" "org").run
  rwa [h] at hreturns

/-- The grant allows no function of the contract; read back from the shared table,
or from Redis, it allows every one. -/
theorem emptyFunctionList_lost :
    Resolver.CanCompute ⟨5 * minute, .ok⟩ (grantPermissions (some [])) ∧
    ((grantPermissions (some [])).getContractAccess "0xab").map
      (fun access => accessHasFunctionSelector access "0xa9059cbb") = some false ∧
    ((SqlCache.reader 0 (SqlCache.setCachedPermissions ⟨[]⟩ (grantPermissions (some []))) minute
      "alice" "org").bind fun q => (q.getContractAccess "0xab").map
        fun access => accessHasFunctionSelector access "0xa9059cbb") = some true ∧
    ((RedisCache.get microseconds
      (RedisCache.set microseconds ⟨[], 5 * minute⟩ 0 (grantPermissions (some []))) minute
      "alice" "org").bind fun q => (q.getContractAccess "0xab").map
        fun access => accessHasFunctionSelector access "0xa9059cbb") = some true := by
  refine ⟨canCompute_grant (by decide +kernel), by decide +kernel, ?_, ?_⟩
  · obtain ⟨q, hq, hperms⟩ := @ofRow_row_permissions (grantPermissions (some [])) (by decide)
    have hget : (SqlCache.setCachedPermissions ⟨[]⟩
        (grantPermissions (some []))).getCachedPermissions
        ⟨minute, 0⟩ "alice" "org" = .ok (some q) :=
      SqlCache.getCachedPermissions_written ⟨[]⟩ hq (by decide)
    rw [SqlCache.reader, hget, Option.bind_some, hperms]
    decide +kernel
  · obtain ⟨q, hq, -, hperms⟩ := asPermissions_document microseconds (grantPermissions (some []))
    have hget : (RedisCache.set microseconds ⟨[], 5 * minute⟩ 0 (grantPermissions (some []))).get
        microseconds minute "alice" "org" = some q := by
      unfold RedisCache.set
      exact (RedisCache.get_written ⟨[], 5 * minute⟩ (by decide)).trans hq
    rw [hget, Option.bind_some, hperms (by decide)]
    decide +kernel

/-- Moving what is theirs, and looking at balances. -/
def traderFunctions : Option (List FunctionRule) :=
  some [⟨"0x23b872dd", [⟨0, "self"⟩]⟩, ⟨"0x70a08231", []⟩]

/-- Functions, parameter rules, event rules, methods and claims are read back as they were. -/
theorem cachedPermissions_sameAnswers_traders :
    (∃ q, (SqlCache.setCachedPermissions ⟨[]⟩
        (grantPermissions traderFunctions)).getCachedPermissions ⟨0, 0⟩ "alice" "org" =
          .ok (some q) ∧
      SameAnswers (grantPermissions traderFunctions).toEffectivePermissions
        q.toEffectivePermissions) ∧
    (∃ q, (RedisCache.setWithTTL microseconds ⟨[], minute⟩ 0 (grantPermissions traderFunctions)
        minute).get microseconds 1 "alice" "org" = some q ∧
      SameAnswers (grantPermissions traderFunctions).toEffectivePermissions
        q.toEffectivePermissions) := by
  have hcomputed : Resolver.CanCompute ⟨5 * minute, .ok⟩ (grantPermissions traderFunctions) :=
    canCompute_grant (by decide +kernel)
  have hfull : NoEmptyFunctionList (grantPermissions traderFunctions).toEffectivePermissions := by
    unfold NoEmptyFunctionList
    decide +kernel
  have hlive : ∀ deadline, RedisCache.expiry 0 minute = some deadline → 1 ≤ deadline := by
    intro deadline hdeadline
    rw [show RedisCache.expiry 0 minute = some minute by decide] at hdeadline
    cases hdeadline
    decide
  have hboth := cachedPermissions_sameAnswers_iff hcomputed microseconds ⟨[]⟩ ⟨[], minute⟩
    (show (⟨0, 0⟩ : Time).wallClock < (grantPermissions traderFunctions).expiresAt.wallClock by
      decide) hlive
  exact ⟨hboth.1.mpr hfull, hboth.2.mpr hfull⟩

end PrivacySuite.Rbac
