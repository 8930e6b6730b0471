import PrivacySuite.Rbac.ResolverFreshness

/-!
# Results, their keys, and old results on their way

Every result of a resolver call stays under the cache key of the call (`Keyed`): the
row it is published under, the in-flight slot it is handed on from, and the verdict it
is returned with.

A call `carries` something old when it will return, as cacheable, permissions computed
from before a moment. Where such a verdict comes from, one step back, is
`carries_of_nextPc`; that it can be returned is `carries_returned`.
-/

namespace PrivacySuite.Rbac

open Go Concurrency PermissionCodec

namespace ResolverState

variable {r : Resolver} {s s' : ResolverState} {e : ResolverEvent} {i G : Nat}

/-! ## Results and their keys -/

/-- The permissions have the cache key of the call. -/
def keyedVerdict (c : Call) : Verdict → Prop
  | .ok (v, _) => cacheKey v.perms.userID v.perms.orgID = cacheKey c.userID c.orgID
  | .error _ => True

def keyedPc (s : ResolverState) (c : Call) : Pc → Prop
  | .await entry => ∃ th, s.threads entry = some th ∧ th.call.slot = c.slot
  | .computing _ _ rest _ => ∀ p, rest.Returns (.ok p) → p.userID = c.userID ∧ p.orgID = c.orgID
  | .broadcast verdict => keyedVerdict c verdict
  | .remove verdict => keyedVerdict c verdict
  | .returned _ verdict => keyedVerdict c verdict
  | _ => True

/-- Calls, slots and rows hold what belongs to their keys, and rows can be read. -/
structure Keyed (s : ResolverState) : Prop where
  calls : ∀ t th, s.threads t = some th → keyedPc s th.call th.pc
  slots : ∀ slot entry, s.inFlight slot = some entry →
    ∃ th, s.threads entry = some th ∧ th.call.slot = slot
  rows : ∀ entry ∈ s.sql.rows, entry.2.userID = entry.1.userID ∧ entry.2.orgID = entry.1.orgID ∧
    (ofRow entry.2).isSome

theorem keyed_init (db : Database) (generation : Nat) : Keyed (init db generation) where
  calls t th hth := by cases hth
  slots slot entry hslot := by cases hslot
  rows entry hentry := by cases hentry

variable {t : Nat} {c : Call} {choice : Choice} {pc : Pc}

theorem thread_persists (h : s.step r e = some s') {th : Thread} (hth : s.threads t = some th) :
    ∃ th', s'.threads t = some th' ∧ th'.call = th.call := by
  rcases thread_next h hth with hsame | ⟨choice, pc, -, hnext⟩
  · exact ⟨th, hsame, rfl⟩
  · exact ⟨⟨th.call, pc⟩, hnext, rfl⟩

theorem ofRow_ids {x : CachedRow} {q : ResolvedPermissions} (h : ofRow x = some q) :
    q.userID = x.userID ∧ q.orgID = x.orgID := by
  obtain ⟨_, -, rfl⟩ := Option.map_eq_some_iff.mp h
  exact ⟨rfl, rfl⟩

theorem Keyed.afterCacheRead (hs : Keyed s) {join : Bool} :
    keyedPc s' c (s.afterCacheRead c join choice) := by
  unfold ResolverState.afterCacheRead
  split
  · trivial
  · trivial
  · rename_i p _ hget
    obtain ⟨x, hx, -, hp⟩ := SqlCache.lookup_of_getCachedPermissions hget
    obtain ⟨huser, horg, -⟩ := hs.rows _ (mem_of_lookup hx)
    obtain ⟨hpuser, hporg⟩ := ofRow_ids hp
    show cacheKey p.userID p.orgID = cacheKey c.userID c.orgID
    rw [hpuser, hporg, huser, horg]
  · split <;> trivial

theorem keyedPc_of_threads
    (hkeep : ∀ t th, s.threads t = some th → ∃ th', s'.threads t = some th' ∧ th'.call = th.call)
    (h : keyedPc s c pc) : keyedPc s' c pc := by
  cases pc with
  | await entry =>
    obtain ⟨th, hth, hslot⟩ := h
    obtain ⟨th', hth', hcall⟩ := hkeep entry th hth
    exact ⟨th', hth', by rw [hcall, hslot]⟩
  | readCache | peek | claim | readGeneration | computing | broadcast | remove | returned => exact h

theorem Keyed.nextPc (hs : Keyed s)
    (hkeep : ∀ t th, s.threads t = some th → ∃ th', s'.threads t = some th' ∧ th'.call = th.call)
    {pc' : Pc} (hpc : keyedPc s c pc) (h : s.nextPc r c choice pc = some pc') :
    keyedPc s' c pc' := by
  cases moves_of_nextPc h with
  | read => exact hs.afterCacheRead
  | @join _ entry hslot =>
    obtain ⟨th, hth, hcall⟩ := hs.slots _ _ hslot
    obtain ⟨th', hth', hcall'⟩ := hkeep entry th hth
    exact ⟨th', hth', by rw [hcall', hcall]⟩
  | @inherited entry th verdict hth hverdict =>
    obtain ⟨th', hth', hslot⟩ := hpc
    rw [hth] at hth'
    cases hth'
    -- the owner's verdict is under the owner's key, which is the key of the slot
    have hkeyed : keyedVerdict th.call verdict := by
      have hcall := hs.calls entry th hth
      unfold Pc.broadcasted at hverdict
      split at hverdict <;> cases hverdict <;> rename_i heq <;> rw [heq] at hcall <;> exact hcall
    unfold afterWait
    split
    · trivial
    · exact Eq.trans hkeyed (congrArg Prod.snd hslot)
    · trivial
  | start =>
    intro p hp
    obtain ⟨huser, horg, -⟩ := Resolver.computePermissions_ok hp
    exact ⟨huser, horg⟩
  | ask => exact fun p hp => hpc p (.ask _ hp)
  | @failed owner => cases owner <;> trivial
  | @computed owner _ p =>
    obtain ⟨huser, horg⟩ := hpc p (.done _)
    have hkey : cacheKey p.userID p.orgID = cacheKey c.userID c.orgID := by rw [huser, horg]
    cases owner <;> exact hkey
  | close | free => exact hpc
  | unclaimed | claimed | cancelled => trivial

theorem Keyed.step (hs : Keyed s) (h : s.step r e = some s') : Keyed s' := by
  have hkeep : ∀ t th, s.threads t = some th →
      ∃ th', s'.threads t = some th' ∧ th'.call = th.call :=
    fun t th hth => thread_persists h hth
  refine ⟨?_, ?_, ?_⟩
  · intro t th hth
    rcases thread_cases h hth with hsame | ⟨c, -, -, rfl⟩ | ⟨choice, pc, -, hth₀, hnext⟩
    · exact keyedPc_of_threads hkeep (hs.calls t th hsame)
    · trivial
    · exact hs.nextPc hkeep (hs.calls t ⟨th.call, pc⟩ hth₀) hnext
  · intro slot entry hslot
    rcases inFlight_of_step h hslot with hsame | ⟨c, join, hclaim, hc⟩
    · obtain ⟨th, hth, hcall⟩ := hs.slots slot entry hsame
      obtain ⟨th', hth', hcall'⟩ := hkeep entry th hth
      exact ⟨th', hth', by rw [hcall', hcall]⟩
    · obtain ⟨th', hth', hcall'⟩ := hkeep entry _ hclaim
      exact ⟨th', hth', by rw [hcall', hc]⟩
  · cases step_cases h with
    | called => exact hs.rows
    | stepped t choice th pc =>
      show ∀ entry ∈ (s.apply t th.call (s.effect th.call choice th.pc)).sql.rows, _
      cases s.effect th.call choice th.pc with
      | nothing | claimSlot | freeSlot => exact hs.rows
      | publish p reads =>
        intro entry hentry
        rcases mem_of_mem_mapSet hentry with hold | rfl
        · exact hs.rows entry hold
        · obtain ⟨q, hq, -⟩ := ofRow_row p
          exact ⟨rfl, rfl, Option.isSome_of_eq_some hq⟩
    | committed | cleaned =>
      exact fun entry hentry => hs.rows entry (List.mem_of_mem_filter hentry)

def Unused (s : ResolverState) : Prop := ∃ n, ∀ t, n ≤ t → s.threads t = none

theorem Unused.step (hs : Unused s) (h : s.step r e = some s') : Unused s' := by
  obtain ⟨n, hn⟩ := hs
  cases step_cases h with
  | called t₀ c =>
    refine ⟨max n (t₀ + 1), fun t ht => ?_⟩
    have hne : t ≠ t₀ := by omega
    simpa [tick, goto, Function.update_of_ne hne] using hn t (by omega)
  | stepped t₀ choice th₀ pc hth₀ =>
    refine ⟨n, fun t ht => ?_⟩
    have hne : t ≠ t₀ := by
      rintro rfl
      rw [hn t ht] at hth₀
      cases hth₀
    simpa [tick, goto, Function.update_of_ne hne] using hn t ht
  | committed | cleaned => exact ⟨n, hn⟩

/-! ## Calls that can still return something old -/

/-- The call has an old verdict that may be cached, or waits for one. -/
def carries (i : Nat) (s : ResolverState) : Pc → Prop
  | .broadcast verdict => oldVerdict i verdict
  | .remove verdict => oldVerdict i verdict
  | .returned _ verdict => oldVerdict i verdict
  | .await entry => EntryOld i s entry
  | _ => False

/-- The row of the key is there and old. -/
def OldRow (i : Nat) (key : RowKey) (s : ResolverState) : Prop :=
  (s.sql.rows.lookup key).isSome ∧ ∃ time ∈ s.rowReads key, time ≤ i

theorem not_oldRow_iff {key : RowKey} : ¬ OldRow i key s ↔ FreshRow i key s := by
  simp [OldRow, FreshRow]

theorem OldRow.of_step {key : RowKey} (hs : Guarded i G s) (h : s.step r e = some s')
    (hold : OldRow i key s') : OldRow i key s := by
  by_contra hnot
  exact not_oldRow_iff.mpr ((not_oldRow_iff.mp hnot).step hs h) hold

/-- Where an old verdict can come from: the call had it, or its row is old, or it has
just joined the entry of its slot. -/
theorem carries_of_nextPc (hs : Guarded i G s) (h : s.step r e = some s') {pc' : Pc}
    (hth : s.threads t = some ⟨c, pc⟩) (hnext : s.nextPc r c choice pc = some pc')
    (hcarries : carries i s' pc') : carries i s pc ∨ OldRow i c.row s ∨ Exposed i s c := by
  cases moves_of_nextPc hnext with
  | read =>
    unfold afterCacheRead at hcarries
    split at hcarries
    · cases hcarries
    · cases hcarries
    · rename_i p _ hget
      obtain ⟨x, hx, -⟩ := SqlCache.lookup_of_getCachedPermissions hget
      exact .inr (.inl ⟨Option.isSome_of_eq_some hx, hcarries⟩)
    · split at hcarries <;> cases hcarries
  | @join _ entry hslot => exact .inr (.inr ⟨entry, hslot, EntryOld.of_step hs h hcarries⟩)
  | @inherited entry th verdict hth' hverdict =>
    have hold : oldVerdict i verdict := by
      unfold afterWait at hcarries
      split at hcarries
      · cases hcarries
      · exact hcarries
      · cases hcarries
    exact .inl ⟨th, hth', publishedOld_of_broadcasted hverdict hold⟩
  | @failed owner => cases owner <;> cases hcarries
  | @computed owner generation p reads =>
    -- cacheable only if published, and then under the generation of now
    have hold : oldVerdict i (.ok (⟨p, reads⟩, s.publishes generation choice)) := by
      cases owner <;> exact hcarries
    cases hpub : s.publishes generation choice with
    | false =>
      rw [hpub] at hold
      cases hold
    | true =>
      rw [hpub] at hold
      obtain ⟨time, htime, hle⟩ := hold
      simp only [publishes, Bool.and_eq_true, beq_iff_eq] at hpub
      rw [hpub.1] at hth
      have hafter := hs.computing t _ hth hs.generation time htime
      omega
  | close | free => exact .inl hcarries
  | unclaimed | claimed | cancelled | start | ask => cases hcarries

theorem carries_returned (hth : s.threads t = some ⟨c, pc⟩) (hcarries : carries i s pc) :
    ∃ events s' owner v, run (ResolverState.step r) s events = some s' ∧
      s'.threads t = some ⟨c, .returned owner (.ok (v, true))⟩ ∧ ∃ time ∈ v.reads, time ≤ i := by
  have hremove : ∀ s₁ : ResolverState, ∀ v, s₁.threads t = some ⟨c, .remove (.ok (v, true))⟩ →
      ∃ s', s₁.step r (.step t {}) = some s' ∧
        s'.threads t = some ⟨c, .returned true (.ok (v, true))⟩ := by
    intro s₁ v hth₁
    refine ⟨((s₁.apply t c .freeSlot).goto t c (.returned true (.ok (v, true)))).tick, ?_, ?_⟩
    · simp [ResolverState.step, perform, hth₁, stepCall, nextPc, effect]
    · simp [tick, goto]
  cases pc with
  | broadcast verdict =>
    obtain ⟨v, rfl, hreads⟩ := oldVerdict_ok hcarries
    have hstep : s.step r (.step t {}) = some (s.goto t c (.remove (.ok (v, true)))).tick :=
      step_quiet hth rfl rfl
    obtain ⟨s', hstep', hreturned⟩ :=
      hremove (s.goto t c (.remove (.ok (v, true)))).tick v (by simp [tick, goto])
    refine ⟨[.step t {}, .step t {}], s', true, v, ?_, hreturned, hreads⟩
    rw [run_cons, hstep, Option.bind_some, run_cons, hstep']
    rfl
  | remove verdict =>
    obtain ⟨v, rfl, hreads⟩ := oldVerdict_ok hcarries
    obtain ⟨s', hstep', hreturned⟩ := hremove s v hth
    refine ⟨[.step t {}], s', true, v, ?_, hreturned, hreads⟩
    rw [run_cons, hstep']
    rfl
  | returned owner verdict =>
    obtain ⟨v, rfl, hreads⟩ := oldVerdict_ok hcarries
    exact ⟨[], s, owner, v, rfl, hth, hreads⟩
  | await entry =>
    obtain ⟨events, s', v, hrun, hreturned, hreads⟩ := EntryOld.inherited hcarries hth
    exact ⟨events, s', false, v, hrun, hreturned, hreads⟩
  | readCache | peek | claim | readGeneration | computing => cases hcarries

theorem OldRow.returned (hs : Keyed s) (hold : OldRow i c.row s)
    (hth : s.threads t = some ⟨c, .readCache true⟩) :
    ∃ events s' owner v, run (ResolverState.step r) s events = some s' ∧
      s'.threads t = some ⟨c, .returned owner (.ok (v, true))⟩ ∧ ∃ time ∈ v.reads, time ≤ i := by
  obtain ⟨hrow, hreads⟩ := hold
  obtain ⟨x, hx⟩ := Option.isSome_iff_exists.mp hrow
  obtain ⟨-, -, hreadable⟩ := hs.rows _ (mem_of_lookup hx)
  obtain ⟨q, hq⟩ := Option.isSome_iff_exists.mp hreadable
  have hx' : s.sql.rows.lookup ⟨c.userID, c.orgID⟩ = some x := hx
  have hget : s.sql.getCachedPermissions ⟨x.expiresAt - 1, 0⟩ c.userID c.orgID = .ok (some q) := by
    simp only [SqlCache.getCachedPermissions, hx', hq, Time.wallClock]
    simp
  have hstep : s.step r (.step t { now := ⟨x.expiresAt - 1, 0⟩ }) =
      some (s.goto t c (.returned false (.ok (⟨q, s.rowReads c.row⟩, true)))).tick :=
    step_quiet hth rfl (by simp [nextPc, afterCacheRead, hget])
  refine ⟨[.step t { now := ⟨x.expiresAt - 1, 0⟩ }],
    (s.goto t c (.returned false (.ok (⟨q, s.rowReads c.row⟩, true)))).tick, false,
    ⟨q, s.rowReads c.row⟩, ?_, by simp [tick, goto], hreads⟩
  rw [run_cons, hstep]
  rfl

end ResolverState

end PrivacySuite.Rbac
