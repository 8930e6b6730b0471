import PrivacySuite.Rbac.PermissionCaches
import PrivacySuite.Concurrency.Runs

/-!
# Concurrent resolver calls

`ResolvePermissionsCacheable` (`internal/rbac/resolver.go`) as a system of calls that
run side by side with transactions on the database. One event is one atomic piece of
the source: a cache read, a section under `inFlightMu`, the wake-up of a waiter, the
generation read, one query of the computation, the guarded publication, the close of
`done`, the removal of the in-flight entry, or the commit of a transaction.

Calls are numbered, and the in-flight entry a call owns goes by the number of the
call: a call owns at most one. `Call.proc` is the process, since every process has
its own in-flight map while the database is shared.

The clock counts events. `reads` of a result and `rowReads` of a row are history
only: they say at which events the state was read that the value was computed from,
and no step looks at them.
-/

namespace PrivacySuite.Rbac

open Go Concurrency PermissionCodec Function

/-- What each query answers at a moment. -/
abbrev Database := (q : Query) → Answer q

/-- A committed transaction: what it does to the state, whether it bumps the cache
generation, and which cache rows it deletes. -/
structure Transaction where
  mutate : Database → Database := id
  bumps : Bool := false
  deletes : RowKey → Bool := fun _ => false

/-- `bumpCacheGeneration`, then the delete of a user's rows, in one transaction:
`InvalidateCacheForUser`. -/
def Transaction.invalidateCacheForUser (userID : String) : Transaction where
  bumps := true
  deletes key := key.userID == userID

/-- `bumpCacheGeneration` by itself, the first statement of `InvalidateCacheForOrg`. -/
def Transaction.bumpCacheGeneration : Transaction where
  bumps := true

/-- The second statement of `InvalidateCacheForOrg`. On the plain connection the two are
transactions of their own. -/
def Transaction.deleteCacheForOrg (orgID : String) : Transaction where
  deletes key := key.orgID == orgID

/-- Permissions, with the events that read what they were computed from. -/
structure Resolved where
  perms : ResolvedPermissions
  reads : List Nat

/-- What a call returns: permissions and whether they may be cached, or an error. -/
abbrev Verdict := Except String (Resolved × Bool)

/-- The arguments of a call, and the process it runs in. -/
structure Call where
  proc : Nat
  userID : String
  orgID : String
  deriving DecidableEq, Repr

namespace Call

def row (c : Call) : RowKey := ⟨c.userID, c.orgID⟩

/-- The in-flight map of the process, at the cache key. -/
def slot (c : Call) : Nat × String := (c.proc, cacheKey c.userID c.orgID)

end Call

/-- The next atomic step of a call. `join` is `joinInFlight`; `owner` says that the
call owns the in-flight entry of its key. -/
inductive Pc where
  /-- `GetCachedPermissions` -/
  | readCache (join : Bool)
  /-- the lookup under the read lock -/
  | peek
  /-- the second lookup, under the write lock -/
  | claim (join : Bool)
  /-- `awaitEntry` -/
  | await (entry : Nat)
  /-- `CacheGeneration` -/
  | readGeneration (owner : Bool)
  /-- `computePermissions`, and `SetCachedPermissionsAtGeneration` at its end -/
  | computing (owner : Bool) (generation : Option Nat)
      (rest : Reads Query Answer (Except String ResolvedPermissions)) (reads : List Nat)
  /-- `close(entry.done)` -/
  | broadcast (verdict : Verdict)
  /-- `delete(r.inFlight, cacheKey)` -/
  | remove (verdict : Verdict)
  | returned (owner : Bool) (verdict : Verdict)

structure Thread where
  call : Call
  pc : Pc

structure ResolverState where
  db : Database
  generation : Nat
  sql : SqlCache := {}
  rowReads : RowKey → List Nat := fun _ => []
  inFlight : Nat × String → Option Nat := fun _ => none
  threads : Nat → Option Thread := fun _ => none
  clock : Nat := 0

/-- What the environment decides about a step: the time, and whether the database
call fails or, in a wait, the context ends. -/
structure Choice where
  now : Time := ⟨0, 0⟩
  failure : Option String := none

inductive ResolverEvent where
  | call (t : Nat) (c : Call)
  | step (t : Nat) (choice : Choice)
  | commit (tx : Transaction)
  | cleanup (now : Time)

/-- The answer to a query of the computation. -/
def Choice.answer (choice : Choice) (db : Database) : (q : Query) → Answer q
  | .now => choice.now
  | .listUserMembershipsInOrg u o =>
      choice.failure.elim (db (.listUserMembershipsInOrg u o)) .error
  | .listContracts o => choice.failure.elim (db (.listContracts o)) .error
  | .getGroupAccessBatch ids => choice.failure.elim (db (.getGroupAccessBatch ids)) .error
  | .listContractGrantsBatch ids => choice.failure.elim (db (.listContractGrantsBatch ids)) .error
  | .getContractsByIDs ids => choice.failure.elim (db (.getContractsByIDs ids)) .error

/-- The clock is not part of the state. -/
def Query.stamp (time : Nat) (reads : List Nat) : Query → List Nat
  | .now => reads
  | _ => time :: reads

/-- The verdict in an entry whose `done` is closed. -/
def Pc.broadcasted : Pc → Option Verdict
  | .remove verdict => some verdict
  | .returned true verdict => some verdict
  | _ => none

inductive Effect where
  | nothing
  | claimSlot
  | publish (p : ResolvedPermissions) (reads : List Nat)
  | freeSlot

namespace ResolverState

variable (r : Resolver) (s : ResolverState)

/-- After `GetCachedPermissions`. -/
def afterCacheRead (c : Call) (join : Bool) (choice : Choice) : Pc :=
  match choice.failure, s.sql.getCachedPermissions choice.now c.userID c.orgID with
  | some e, _ => .returned false (.error e)
  | none, .error e => .returned false (.error e)
  | none, .ok (some p) => .returned false (.ok (⟨p, s.rowReads c.row⟩, true))
  | none, .ok none => if join then .peek else .claim false

/-- After the wait: the verdict is inherited, unless it is not publishable. -/
def afterWait : Verdict → Pc
  | .error e => .returned false (.error e)
  | .ok (v, true) => .returned false (.ok (v, true))
  | .ok (_, false) => .readCache false

/-- After the end of the computation, with its verdict. -/
def afterCompute (owner : Bool) (verdict : Verdict) : Pc :=
  if owner then .broadcast verdict else .returned false verdict

/-- The publication goes through: the generation is known and unchanged. -/
def publishes (generation : Option Nat) (choice : Choice) : Bool :=
  generation == some s.generation && choice.failure.isNone

def outcome (entry : Nat) : Option Verdict := (s.threads entry).bind fun o => o.pc.broadcasted

/-- Where a call goes on; `none` when it has to wait or has returned. -/
def nextPc (c : Call) (choice : Choice) : Pc → Option Pc
  | .readCache join => some (s.afterCacheRead c join choice)
  | .peek => some ((s.inFlight c.slot).elim (.claim true) .await)
  | .claim join =>
      some ((s.inFlight c.slot).elim (.readGeneration true) fun entry =>
        if join then .await entry else .readGeneration false)
  | .await entry =>
      choice.failure.elim ((s.outcome entry).map afterWait)
        fun e => some (.returned false (.error e))
  | .readGeneration owner =>
      some (.computing owner (if choice.failure.isNone then some s.generation else none)
        (r.computePermissions c.userID c.orgID).run [])
  | .computing owner generation (.ask q next) reads =>
      some (.computing owner generation (next (choice.answer s.db q)) (q.stamp s.clock reads))
  | .computing owner _ (.done (.error e)) _ => some (afterCompute owner (.error e))
  | .computing owner generation (.done (.ok p)) reads =>
      some (afterCompute owner (.ok (⟨p, reads⟩, s.publishes generation choice)))
  | .broadcast verdict => some (.remove verdict)
  | .remove verdict => some (.returned true verdict)
  | .returned _ _ => none

def effect (c : Call) (choice : Choice) : Pc → Effect
  | .claim _ => if (s.inFlight c.slot).isNone then .claimSlot else .nothing
  | .computing _ generation (.done (.ok p)) reads =>
      if s.publishes generation choice then .publish p reads else .nothing
  | .remove _ => .freeSlot
  | _ => .nothing

def apply (t : Nat) (c : Call) : Effect → ResolverState
  | .nothing => s
  | .claimSlot => { s with inFlight := Function.update s.inFlight c.slot (some t) }
  | .publish p reads =>
      { s with
        sql := s.sql.setCachedPermissions p
        rowReads := Function.update s.rowReads ⟨p.userID, p.orgID⟩ reads }
  | .freeSlot => { s with inFlight := Function.update s.inFlight c.slot none }

def goto (t : Nat) (c : Call) (pc : Pc) : ResolverState :=
  { s with threads := Function.update s.threads t (some ⟨c, pc⟩) }

def stepCall (t : Nat) (th : Thread) (choice : Choice) : Option ResolverState :=
  (s.nextPc r th.call choice th.pc).map fun pc =>
    (s.apply t th.call (s.effect th.call choice th.pc)).goto t th.call pc

def commit (tx : Transaction) : ResolverState :=
  { s with
    db := tx.mutate s.db
    generation := if tx.bumps then s.generation + 1 else s.generation
    sql := { rows := s.sql.rows.filter fun entry => !tx.deletes entry.1 } }

def start (t : Nat) (c : Call) : Option ResolverState :=
  match s.threads t with
  | none => some (s.goto t c (.readCache true))
  | some _ => none

def perform : ResolverEvent → Option ResolverState
  | .call t c => s.start t c
  | .step t choice => (s.threads t).bind fun th => s.stepCall r t th choice
  | .commit tx => some (s.commit tx)
  | .cleanup now => some { s with sql := s.sql.cleanupExpiredCache now }

def tick : ResolverState := { s with clock := s.clock + 1 }

def step (e : ResolverEvent) : Option ResolverState := (s.perform r e).map tick

def init (db : Database) (generation : Nat) : ResolverState := { db, generation }

/-! ## What an event can do -/

variable {r s}

variable {s' : ResolverState} {e : ResolverEvent} {c : Call} {choice : Choice} {pc : Pc}

/-- The four ways an event goes. -/
inductive Steps (r : Resolver) (s : ResolverState) : ResolverEvent → ResolverState → Prop
  | called (t : Nat) (c : Call) (hidle : s.threads t = none) :
      Steps r s (.call t c) (s.goto t c (.readCache true)).tick
  | stepped (t : Nat) (choice : Choice) (th : Thread) (pc : Pc) (hth : s.threads t = some th)
      (hpc : s.nextPc r th.call choice th.pc = some pc) : Steps r s (.step t choice)
        ((s.apply t th.call (s.effect th.call choice th.pc)).goto t th.call pc).tick
  | committed (tx : Transaction) : Steps r s (.commit tx) (s.commit tx).tick
  | cleaned (now : Time) :
      Steps r s (.cleanup now) (tick { s with sql := s.sql.cleanupExpiredCache now })

theorem step_cases (h : s.step r e = some s') : Steps r s e s' := by
  obtain ⟨s₁, hperform, rfl⟩ := Option.map_eq_some_iff.mp h
  cases e with
  | call t c =>
    have hstart : s.start t c = some s₁ := hperform
    unfold start at hstart
    split at hstart
    · rename_i hidle
      cases hstart
      exact .called t c hidle
    · cases hstart
  | step t choice =>
    obtain ⟨th, hth, hstep⟩ := Option.bind_eq_some_iff.mp hperform
    obtain ⟨pc, hpc, rfl⟩ := Option.map_eq_some_iff.mp hstep
    exact .stepped t choice th pc hth hpc
  | commit tx =>
    cases hperform
    exact .committed tx
  | cleanup now =>
    cases hperform
    exact .cleaned now

@[simp] theorem clock_apply (t : Nat) (c : Call) (e : Effect) :
    (s.apply t c e).clock = s.clock := by
  cases e <;> rfl

@[simp] theorem generation_apply (t : Nat) (c : Call) (e : Effect) :
    (s.apply t c e).generation = s.generation := by
  cases e <;> rfl

@[simp] theorem threads_apply (t : Nat) (c : Call) (e : Effect) :
    (s.apply t c e).threads = s.threads := by
  cases e <;> rfl

/-- The ways one step of a call goes. -/
inductive Moves (r : Resolver) (s : ResolverState) (c : Call) (choice : Choice) : Pc → Pc → Prop
  | read {join : Bool} : Moves r s c choice (.readCache join) (s.afterCacheRead c join choice)
  | join {pc : Pc} {entry : Nat} (hslot : s.inFlight c.slot = some entry) :
      Moves r s c choice pc (.await entry)
  | unclaimed : Moves r s c choice .peek (.claim true)
  | claimed {join owner : Bool} : Moves r s c choice (.claim join) (.readGeneration owner)
  | cancelled {entry : Nat} {err : String} :
      Moves r s c choice (.await entry) (.returned false (.error err))
  | inherited {entry : Nat} {th : Thread} {verdict : Verdict} (hth : s.threads entry = some th)
      (hverdict : th.pc.broadcasted = some verdict) :
      Moves r s c choice (.await entry) (afterWait verdict)
  | start {owner : Bool} : Moves r s c choice (.readGeneration owner)
      (.computing owner (if choice.failure.isNone then some s.generation else none)
        (r.computePermissions c.userID c.orgID).run [])
  | ask {owner : Bool} {generation : Option Nat} {q : Query}
      {next : Answer q → Reads Query Answer (Except String ResolvedPermissions)}
      {reads : List Nat} : Moves r s c choice (.computing owner generation (.ask q next) reads)
        (.computing owner generation (next (choice.answer s.db q)) (q.stamp s.clock reads))
  | failed {owner : Bool} {generation : Option Nat} {err : String} {reads : List Nat} :
      Moves r s c choice (.computing owner generation (.done (.error err)) reads)
        (afterCompute owner (.error err))
  | computed {owner : Bool} {generation : Option Nat} {p : ResolvedPermissions}
      {reads : List Nat} : Moves r s c choice (.computing owner generation (.done (.ok p)) reads)
        (afterCompute owner (.ok (⟨p, reads⟩, s.publishes generation choice)))
  | close {verdict : Verdict} : Moves r s c choice (.broadcast verdict) (.remove verdict)
  | free {verdict : Verdict} : Moves r s c choice (.remove verdict) (.returned true verdict)

theorem moves_of_nextPc {pc' : Pc} (h : s.nextPc r c choice pc = some pc') :
    Moves r s c choice pc pc' := by
  cases pc with
  | peek =>
    obtain rfl := Option.some.inj h
    cases hslot : s.inFlight c.slot with
    | none => exact .unclaimed
    | some entry => exact .join hslot
  | claim join =>
    obtain rfl := Option.some.inj h
    cases hslot : s.inFlight c.slot with
    | none => exact .claimed
    | some entry =>
      cases join with
      | false => exact .claimed
      | true => exact .join hslot
  | await entry =>
    simp only [nextPc] at h
    cases hfail : choice.failure with
    | some err =>
      rw [hfail] at h
      obtain rfl := Option.some.inj h
      exact .cancelled
    | none =>
      rw [hfail] at h
      obtain ⟨verdict, houtcome, rfl⟩ := Option.map_eq_some_iff.mp h
      obtain ⟨th, hth, hverdict⟩ := Option.bind_eq_some_iff.mp houtcome
      exact .inherited hth hverdict
  | computing owner generation rest reads =>
    cases rest with
    | ask q next =>
      obtain rfl := Option.some.inj h
      exact .ask
    | done result =>
      cases result <;> obtain rfl := Option.some.inj h <;> constructor
  | returned owner verdict => cases h
  | readCache | readGeneration | broadcast | remove =>
    obtain rfl := Option.some.inj h
    constructor

/-- Only the end of a computation whose generation still holds publishes. -/
theorem effect_publish {p : ResolvedPermissions} {reads : List Nat}
    (h : s.effect c choice pc = .publish p reads) :
    ∃ owner, pc = .computing owner (some s.generation) (.done (.ok p)) reads := by
  unfold effect at h
  split at h
  · split at h <;> cases h
  · rename_i owner generation p' reads'
    split at h
    · rename_i hpublishes
      cases h
      simp only [publishes, Bool.and_eq_true, beq_iff_eq] at hpublishes
      exact ⟨owner, by rw [hpublishes.1]⟩
    · cases h
  · cases h
  · cases h

theorem effect_claimSlot (h : s.effect c choice pc = .claimSlot) : ∃ join, pc = .claim join := by
  unfold effect at h
  split at h
  · exact ⟨_, rfl⟩
  · split at h <;> cases h
  · cases h
  · cases h

theorem thread_cases (h : s.step r e = some s') {t : Nat} {th : Thread}
    (hth : s'.threads t = some th) :
    s.threads t = some th ∨
    (∃ c, e = .call t c ∧ s.threads t = none ∧ th = ⟨c, .readCache true⟩) ∨
    ∃ choice pc, e = .step t choice ∧ s.threads t = some ⟨th.call, pc⟩ ∧
      s.nextPc r th.call choice pc = some th.pc := by
  cases step_cases h with
  | called t₀ c hidle =>
    by_cases ht : t = t₀
    · subst ht
      simp only [tick, goto, update_self, Option.some.injEq] at hth
      exact .inr (.inl ⟨c, rfl, hidle, hth.symm⟩)
    · simp only [tick, goto, update_of_ne ht] at hth
      exact .inl hth
  | stepped t₀ choice th₀ pc hth₀ hpc =>
    by_cases ht : t = t₀
    · subst ht
      simp only [tick, goto, update_self, Option.some.injEq] at hth
      subst hth
      exact .inr (.inr ⟨choice, th₀.pc, rfl, hth₀, hpc⟩)
    · simp only [tick, goto, update_of_ne ht, threads_apply] at hth
      exact .inl hth
  | committed | cleaned => exact .inl hth

theorem thread_next (h : s.step r e = some s') {t : Nat} {th : Thread}
    (hth : s.threads t = some th) :
    s'.threads t = some th ∨ ∃ choice pc, s.nextPc r th.call choice th.pc = some pc ∧
      s'.threads t = some ⟨th.call, pc⟩ := by
  cases step_cases h with
  | called t₀ c hidle =>
    have ht : t ≠ t₀ := by
      rintro rfl
      rw [hidle] at hth
      cases hth
    exact .inl (by simpa [tick, goto, update_of_ne ht] using hth)
  | stepped t₀ choice th₀ pc hth₀ hpc =>
    by_cases ht : t = t₀
    · subst ht
      rw [hth] at hth₀
      cases hth₀
      exact .inr ⟨choice, pc, hpc, by simp [tick, goto]⟩
    · exact .inl (by simpa [tick, goto, update_of_ne ht] using hth)
  | committed | cleaned => exact .inl hth

theorem clock_step (h : s.step r e = some s') : s'.clock = s.clock + 1 := by
  cases step_cases h with
  | stepped => simp [tick, goto]
  | called | committed | cleaned => rfl

theorem clock_run {events : List ResolverEvent} (h : run (step r) s events = some s') :
    s'.clock = s.clock + events.length := by
  induction events generalizing s with
  | nil =>
    cases h
    rfl
  | cons e rest ih =>
    rw [run_cons, Option.bind_eq_some_iff] at h
    obtain ⟨s₁, he, hrest⟩ := h
    rw [ih hrest, clock_step he, List.length_cons]
    omega

theorem generation_le_step (h : s.step r e = some s') : s.generation ≤ s'.generation := by
  cases step_cases h with
  | called | cleaned => exact le_refl _
  | stepped => simp [tick, goto]
  | committed =>
    simp only [tick, commit]
    split <;> omega

end ResolverState

end PrivacySuite.Rbac
