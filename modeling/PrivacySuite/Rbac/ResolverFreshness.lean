import PrivacySuite.Rbac.GenerationGuard

/-!
# Calls that start after a revocation

The generation guard keeps stale rows out of the shared cache. A call can also get its
answer from another call, through the in-flight map. An entry stays in that map for
two steps after its result has been published, and it keeps the verdict of the
publication. A revocation that commits in between deletes the row but not the verdict.

`Exposed` is that situation. A call that starts when its key is not exposed is never
answered from before the revocation, and one that starts when it is can be.
-/

namespace PrivacySuite.Rbac

open Go Concurrency PermissionCodec Function

namespace ResolverState

variable {r : Resolver} {s s' : ResolverState} {e : ResolverEvent} {i G : Nat}

/-- A verdict a waiter inherits, computed from something read up to event `i`. -/
def oldVerdict (i : Nat) : Verdict → Prop
  | .ok (v, true) => ∃ time ∈ v.reads, time ≤ i
  | _ => False

/-- The call has published such a verdict, and its entry has it or will have it. -/
def publishedOld (i : Nat) : Pc → Prop
  | .broadcast verdict => oldVerdict i verdict
  | .remove verdict => oldVerdict i verdict
  | .returned true verdict => oldVerdict i verdict
  | _ => False

def EntryOld (i : Nat) (s : ResolverState) (entry : Nat) : Prop :=
  ∃ th, s.threads entry = some th ∧ publishedOld i th.pc

/-- The in-flight entry at the key of the call has an old verdict to hand on. -/
def Exposed (i : Nat) (s : ResolverState) (c : Call) : Prop :=
  ∃ entry, s.inFlight c.slot = some entry ∧ EntryOld i s entry

variable {c : Call} {choice : Choice} {verdict : Verdict} {pc pc' : Pc} {entry t : Nat}

theorem afterCacheRead_not_publishedOld {join : Bool} :
    ¬ publishedOld i (s.afterCacheRead c join choice) := by
  unfold afterCacheRead
  split <;> try split
  all_goals simp [publishedOld]

theorem afterWait_not_publishedOld : ¬ publishedOld i (afterWait verdict) := by
  unfold afterWait
  split <;> simp [publishedOld]

theorem publishedOld_of_broadcasted (h : pc.broadcasted = some verdict)
    (hold : oldVerdict i verdict) : publishedOld i pc := by
  unfold Pc.broadcasted at h
  split at h <;> cases h <;> exact hold

theorem nextPc_publishedOld (h : s.nextPc r c choice pc = some pc') (hold : publishedOld i pc') :
    publishedOld i pc ∨ ∃ owner rest reads, pc = .computing owner (some s.generation) rest reads ∧
      ∃ time ∈ reads, time ≤ i := by
  cases moves_of_nextPc h with
  | read => exact absurd hold afterCacheRead_not_publishedOld
  | inherited => exact absurd hold afterWait_not_publishedOld
  | @failed owner => cases owner <;> cases hold
  | @computed owner generation p reads =>
    cases owner with
    | false => cases hold
    | true =>
      -- only a result that was published is inherited
      cases hpub : s.publishes generation choice with
      | false => simp [afterCompute, publishedOld, oldVerdict, hpub] at hold
      | true =>
        simp only [afterCompute, if_true, publishedOld, oldVerdict, hpub] at hold
        simp only [publishes, Bool.and_eq_true, beq_iff_eq] at hpub
        exact .inr ⟨true, _, reads, by rw [hpub.1], hold⟩
  | close | free => exact .inl hold
  | join | unclaimed | claimed | cancelled | start | ask => cases hold

/-- Once the generation has moved on, no new verdict is old. -/
theorem EntryOld.of_step (hs : Guarded i G s) (h : s.step r e = some s')
    (hold : EntryOld i s' entry) : EntryOld i s entry := by
  obtain ⟨th, hth, hpc⟩ := hold
  rcases thread_cases h hth with hsame | ⟨c, -, -, rfl⟩ | ⟨choice, pc, -, hth₀, hnext⟩
  · exact ⟨th, hsame, hpc⟩
  · cases hpc
  · rcases nextPc_publishedOld hnext hpc with hpc₀ | ⟨owner, rest, reads, rfl, time, htime, hle⟩
    · exact ⟨_, hth₀, hpc₀⟩
    · -- it would have been published under the generation of now, from reads before it
      have hafter := hs.computing entry _ hth₀ hs.generation time htime
      omega

theorem inFlight_of_step (h : s.step r e = some s') {slot : Nat × String}
    (hslot : s'.inFlight slot = some entry) :
    s.inFlight slot = some entry ∨ ∃ c join, s.threads entry = some ⟨c, .claim join⟩ ∧ c.slot
      = slot := by
  cases step_cases h with
  | called | committed | cleaned => exact .inl hslot
  | stepped t choice th pc hth =>
    change (s.apply t th.call (s.effect th.call choice th.pc)).inFlight slot = some entry at hslot
    cases heffect : s.effect th.call choice th.pc with
    | nothing | publish p reads => exact .inl (by rwa [heffect] at hslot)
    | freeSlot =>
      rw [heffect] at hslot
      by_cases hkey : slot = th.call.slot
      · simp [apply, hkey] at hslot
      · exact .inl (by simpa [apply, update_of_ne hkey] using hslot)
    | claimSlot =>
      rw [heffect] at hslot
      by_cases hkey : slot = th.call.slot
      · simp only [apply, hkey, update_self, Option.some.injEq] at hslot
        subst hslot
        obtain ⟨join, hclaim⟩ := effect_claimSlot heffect
        exact .inr ⟨th.call, join, by rw [hth, ← hclaim], hkey.symm⟩
      · exact .inl (by simpa [apply, update_of_ne hkey] using hslot)

theorem Exposed.of_step (hs : Guarded i G s) (h : s.step r e = some s')
    (hexposed : Exposed i s' c) :
    Exposed i s c := by
  obtain ⟨entry, hslot, hold⟩ := hexposed
  have hold₀ := hold.of_step hs h
  rcases inFlight_of_step h hslot with hsame | ⟨c', join, hclaim, -⟩
  · exact ⟨entry, hsame, hold₀⟩
  · -- whoever is about to claim the slot has no verdict
    obtain ⟨th, hth, hpc⟩ := hold₀
    rw [hclaim] at hth
    cases hth
    cases hpc

/-! ## One call -/

/-- The result, if there is one yet, was computed from nothing up to event `i`. -/
def freshVerdict (i : Nat) : Verdict → Prop
  | .ok (v, _) => ∀ time ∈ v.reads, i < time
  | .error _ => True

def freshPc (i : Nat) (s : ResolverState) : Pc → Prop
  | .await entry => ¬ EntryOld i s entry
  | .computing _ _ _ reads => ∀ time ∈ reads, i < time
  | .broadcast verdict => freshVerdict i verdict
  | .remove verdict => freshVerdict i verdict
  | .returned _ verdict => freshVerdict i verdict
  | _ => True

/-- The call as it runs after the commit, from a start without exposure. -/
structure FreshCall (i G : Nat) (c : Call) (t : Nat) (s : ResolverState) : Prop where
  guarded : Guarded i G s
  row : FreshRow i c.row s
  notExposed : ¬ Exposed i s c
  call : ∃ pc, s.threads t = some ⟨c, pc⟩ ∧ freshPc i s pc

theorem freshPc_afterCacheRead {join : Bool} (hrow : FreshRow i c.row s) :
    freshPc i s' (s.afterCacheRead c join choice) := by
  unfold afterCacheRead
  split
  · trivial
  · trivial
  · rename_i p hget
    -- the row that was read is there
    refine hrow ?_
    obtain ⟨x, hx, -⟩ := SqlCache.lookup_of_getCachedPermissions hget
    exact Option.isSome_of_eq_some hx
  · split <;> trivial

theorem freshPc_nextPc (hs : FreshCall i G c t s) (hfresh : freshPc i s pc)
    (hentry : ∀ entry, EntryOld i s' entry → EntryOld i s entry)
    (h : s.nextPc r c choice pc = some pc') : freshPc i s' pc' := by
  cases moves_of_nextPc h with
  | read => exact freshPc_afterCacheRead hs.row
  | @join _ entry hslot => exact fun hold => hs.notExposed ⟨entry, hslot, hentry entry hold⟩
  | @inherited entry th verdict hth hverdict =>
    have hold : ¬ oldVerdict i verdict := fun hv =>
      hfresh ⟨th, hth, publishedOld_of_broadcasted hverdict hv⟩
    unfold afterWait
    split
    · trivial
    · intro time htime
      by_contra hle
      exact hold ⟨time, htime, by omega⟩
    · trivial
  | start => exact fun time htime => by cases htime
  | @ask _ _ q _ reads =>
    have hreads : ∀ time ∈ q.stamp s.clock reads, time = s.clock ∨ time ∈ reads := by
      intro time htime
      cases q <;> first | exact List.mem_cons.mp htime | exact .inr htime
    intro time htime
    rcases hreads time htime with rfl | hmem
    · exact hs.guarded.clock
    · exact hfresh time hmem
  | @failed owner => cases owner <;> trivial
  | @computed owner => cases owner <;> exact hfresh
  | close | free => exact hfresh
  | unclaimed | claimed | cancelled => trivial

theorem freshPc_of_entries (hfresh : freshPc i s pc)
    (hentry : ∀ entry, EntryOld i s' entry → EntryOld i s entry) : freshPc i s' pc := by
  cases pc with
  | await entry => exact fun hold => hfresh (hentry entry hold)
  | readCache | peek | claim | readGeneration | computing | broadcast | remove | returned =>
    exact hfresh

theorem FreshCall.step {c : Call} {t : Nat} (hs : FreshCall i G c t s) (h : s.step r e = some s') :
    FreshCall i G c t s' where
  guarded := hs.guarded.step h
  row := hs.row.step hs.guarded h
  notExposed hexposed := hs.notExposed (hexposed.of_step hs.guarded h)
  call := by
    obtain ⟨pc, hth, hfresh⟩ := hs.call
    have hentry : ∀ entry, EntryOld i s' entry → EntryOld i s entry := fun entry hold =>
      hold.of_step hs.guarded h
    rcases thread_next h hth with hsame | ⟨choice, pc₀, hpc, hnext⟩
    · exact ⟨pc, hsame, freshPc_of_entries hfresh hentry⟩
    · exact ⟨pc₀, hnext, freshPc_nextPc hs hfresh hentry hpc⟩

/-! ## The exposed call -/

theorem step_call (hidle : s.threads t = none) :
    s.step r (.call t c) = some (s.goto t c (.readCache true)).tick := by
  simp [ResolverState.step, perform, start, hidle]

theorem step_quiet (hth : s.threads t = some ⟨c, pc⟩) (heffect : s.effect c choice pc = .nothing)
    (hnext : s.nextPc r c choice pc = some pc') :
    s.step r (.step t choice) = some (s.goto t c pc').tick := by
  simp [ResolverState.step, perform, hth, stepCall, hnext, heffect, apply]

theorem exists_miss (c : SqlCache) (userID orgID : String) :
    ∃ now, c.getCachedPermissions now userID orgID = .ok none := by
  cases hrow : c.rows.lookup ⟨userID, orgID⟩ with
  | none => exact ⟨⟨0, 0⟩, by simp [SqlCache.getCachedPermissions, hrow]⟩
  | some x =>
    exact ⟨⟨x.expiresAt, 0⟩, by simp [SqlCache.getCachedPermissions, hrow, Time.wallClock]⟩

theorem oldVerdict_ok (h : oldVerdict i verdict) :
    ∃ v, verdict = .ok (v, true) ∧ ∃ time ∈ v.reads, time ≤ i := by
  unfold oldVerdict at h
  split at h
  · exact ⟨_, rfl, h⟩
  · cases h

/-- An entry with an old verdict is closed with it, after one more step of its owner
at most. -/
theorem EntryOld.closes (hold : EntryOld i s entry) :
    ∃ events s' v, run (step r) s events = some s' ∧ s'.outcome entry = some (.ok (v, true)) ∧
      (∃ time ∈ v.reads, time ≤ i) ∧ ∀ t, t ≠ entry → s'.threads t = s.threads t := by
  obtain ⟨⟨c, pc⟩, hth, hpc⟩ := hold
  cases pc with
  | broadcast verdict =>
    obtain ⟨v, rfl, hreads⟩ := oldVerdict_ok hpc
    refine ⟨[.step entry {}], (s.goto entry c (.remove (.ok (v, true)))).tick, v, ?_, ?_, hreads,
      ?_⟩
    · rw [run_cons, step_quiet hth rfl rfl]
      rfl
    · simp [outcome, tick, goto, Pc.broadcasted]
    · intro t ht
      simp [tick, goto, update_of_ne ht]
  | remove verdict =>
    obtain ⟨v, rfl, hreads⟩ := oldVerdict_ok hpc
    exact ⟨[], s, v, rfl, by simp [outcome, hth, Pc.broadcasted], hreads, fun _ _ => rfl⟩
  | returned owner verdict =>
    cases owner with
    | false => cases hpc
    | true =>
      obtain ⟨v, rfl, hreads⟩ := oldVerdict_ok hpc
      exact ⟨[], s, v, rfl, by simp [outcome, hth, Pc.broadcasted], hreads, fun _ _ => rfl⟩
  | readCache | peek | claim | await | readGeneration | computing => cases hpc

/-- A waiter on an entry with an old verdict can return it. -/
theorem EntryOld.inherited {t entry : Nat} {c : Call} (hold : EntryOld i s entry)
    (hth : s.threads t = some ⟨c, .await entry⟩) :
    ∃ events s' v, run (step r) s events = some s' ∧
      s'.threads t = some ⟨c, .returned false (.ok (v, true))⟩ ∧ ∃ time ∈ v.reads, time ≤ i := by
  have hne : t ≠ entry := by
    rintro rfl
    obtain ⟨th, hth', hpc⟩ := hold
    rw [hth] at hth'
    cases hth'
    cases hpc
  obtain ⟨events, s₁, v, hrun, houtcome, hreads, hother⟩ := hold.closes
  have hwait : s₁.threads t = some ⟨c, .await entry⟩ := (hother t hne).trans hth
  have hnext : s₁.nextPc r c {} (.await entry) = some (.returned false (.ok (v, true))) := by
    simp [nextPc, houtcome, afterWait]
  refine ⟨events ++ [.step t {}], (s₁.goto t c (.returned false (.ok (v, true)))).tick, v, ?_, ?_,
    hreads⟩
  · rw [run_concat hrun, step_quiet hwait rfl hnext]
  · simp [tick, goto]

/-- A call on an exposed key can join the entry and return what it has. -/
theorem Exposed.joined (hexposed : Exposed i s c) (hth : s.threads t = some ⟨c, .readCache true⟩) :
    ∃ events s' v, run (step r) s events = some s' ∧
      s'.threads t = some ⟨c, .returned false (.ok (v, true))⟩ ∧ ∃ time ∈ v.reads, time ≤ i := by
  obtain ⟨entry, hslot, hold⟩ := hexposed
  obtain ⟨now, hmiss⟩ := exists_miss s.sql c.userID c.orgID
  have hne : entry ≠ t := by
    rintro rfl
    obtain ⟨th, hth', hpc⟩ := hold
    rw [hth] at hth'
    cases hth'
    cases hpc
  have hread : s.step r (.step t { now }) = some (s.goto t c .peek).tick :=
    step_quiet hth rfl (by simp [nextPc, afterCacheRead, hmiss])
  have hpeek : (s.goto t c .peek).tick.step r (.step t {}) =
      some ((s.goto t c .peek).tick.goto t c (.await entry)).tick := by
    have hslot' : (s.goto t c .peek).tick.inFlight c.slot = some entry := hslot
    have hth' : (s.goto t c .peek).tick.threads t = some ⟨c, .peek⟩ := by simp [tick, goto]
    exact step_quiet hth' rfl (by simp [nextPc, hslot'])
  have hold' : EntryOld i ((s.goto t c .peek).tick.goto t c (.await entry)).tick entry := by
    obtain ⟨th, hentry, hpc⟩ := hold
    exact ⟨th, by simpa [tick, goto, update_of_ne hne] using hentry, hpc⟩
  obtain ⟨events, s', v, hrun, hreturned, hreads⟩ :=
    hold'.inherited (r := r) (t := t) (c := c) (by simp [tick, goto])
  refine ⟨.step t { now } :: .step t {} :: events, s', v, ?_, hreturned, hreads⟩
  rw [run_cons, hread, Option.bind_some, run_cons, hpeek, Option.bind_some]
  exact hrun

/-- The start of a call leaves its key as exposed as it was. -/
theorem Exposed.after_call {c' : Call} (hexposed : Exposed i s c) (hidle : s.threads t = none) :
    Exposed i (s.goto t c' (.readCache true)).tick c := by
  obtain ⟨entry, hslot, th, hth, hpc⟩ := hexposed
  have hne : entry ≠ t := by
    rintro rfl
    rw [hidle] at hth
    cases hth
  exact ⟨entry, hslot, th, by simpa [tick, goto, update_of_ne hne] using hth, hpc⟩

/-- A call that starts after a revocation of its key has committed is never answered
from state read before the commit, exactly when its key is not exposed at its start: no
in-flight entry of it has already passed the publication with such an answer. -/
theorem call_after_revocation_fresh_iff {db : Database} {generation : Nat}
    {before after : List ResolverEvent} {tx : Transaction}
    (h : run (step r) (init db generation) (before ++ .commit tx :: after) = some s)
    (hbumps : tx.bumps = true) {c : Call} (hdeletes : tx.deletes c.row = true) {t : Nat}
    (hidle : s.threads t = none) :
    (∀ events s' owner v cacheable, run (step r) s (.call t c :: events) = some s' →
      s'.threads t = some ⟨c, .returned owner (.ok (v, cacheable))⟩ →
      ∀ time ∈ v.reads, before.length < time) ↔ ¬ Exposed before.length s c := by
  obtain ⟨G, hguarded, hrow⟩ := revocation_leaves h hbumps hdeletes
  have hstart := step_call (r := r) (c := c) hidle
  have hexposed : Exposed before.length (s.goto t c (.readCache true)).tick c ↔
      Exposed before.length s c :=
    ⟨fun hex => hex.of_step hguarded hstart, fun hex => hex.after_call hidle⟩
  constructor
  · intro hall hex
    obtain ⟨events, s', v, hrun, hreturned, time, htime, hle⟩ :=
      (hexposed.mpr hex).joined (r := r) (t := t) (by simp [tick, goto])
    have hfresh := hall events s' false v true (by rw [run_cons, hstart]; exact hrun) hreturned
      time htime
    omega
  · intro hex events s' owner v cacheable hrun hreturned
    rw [run_cons, hstart, Option.bind_some] at hrun
    have hcall : FreshCall before.length G c t s' := by
      refine run_invariant (I := FreshCall before.length G c t)
        (fun _ _ _ hs he => hs.step he) ?_ hrun
      exact ⟨hguarded.step hstart, hrow.step hguarded hstart, fun hex' => hex (hexposed.mp hex'),
        .readCache true, by simp [tick, goto], trivial⟩
    obtain ⟨pc, hth, hfresh⟩ := hcall.call
    rw [hreturned] at hth
    cases hth
    exact hfresh

/-- The first call has published when the revocation commits, and has not woken its
waiters yet. The second call starts after the commit, finds no row, joins, and returns
permissions whose reads are all before the commit at event `12`. -/
theorem joined_after_revocation :
    (run (step ⟨5 * minute, .ok⟩) (init (grantAnswers none) 0)
      (sampleSteps 0 11 ++ .commit sampleRevocation :: (sampleSteps 1 2 ++
        [.step 0 {}, .step 1 {}]))).any (fun s =>
          match s.threads 1 with
          | some ⟨_, .returned _ (.ok (v, cacheable))⟩ =>
            v.reads == [8, 7, 6, 5] && cacheable
          | _ => false) = true := by
  decide

/-- With the first call done before the second starts, nothing is exposed. -/
theorem call_after_revocation_fresh_undisturbed :
    ∃ s, run (step ⟨5 * minute, .ok⟩) (init (grantAnswers none) 0)
        (sampleSteps 0 13 ++ .commit sampleRevocation :: []) = some s ∧
      ∀ events s' owner v cacheable,
        run (step ⟨5 * minute, .ok⟩) s (.call 1 sampleCall :: events) = some s' →
        s'.threads 1 = some ⟨sampleCall, .returned owner (.ok (v, cacheable))⟩ →
        ∀ time ∈ v.reads, 14 < time := by
  have hsome : (run (step ⟨5 * minute, .ok⟩) (init (grantAnswers none) 0)
      (sampleSteps 0 13 ++ .commit sampleRevocation :: [])).any
        (fun s => (s.threads 1).isNone && (s.inFlight sampleCall.slot).isNone) = true := by
    decide
  obtain ⟨s, hs, hidle⟩ := (Option.any_eq_true _ _).mp hsome
  simp only [Bool.and_eq_true, Option.isNone_iff_eq_none] at hidle
  refine ⟨s, hs, (call_after_revocation_fresh_iff hs rfl (by decide) hidle.1).mpr ?_⟩
  rintro ⟨entry, hslot, -⟩
  rw [hidle.2] at hslot
  cases hslot

end ResolverState

end PrivacySuite.Rbac
