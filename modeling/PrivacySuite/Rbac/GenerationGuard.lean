import PrivacySuite.Rbac.ResolverThreads

/-!
# The generation guard of the shared cache

A computation reads the cache generation before it reads any state, and its result is
written only while that generation still stands. A revocation mutates the state,
bumps the generation and deletes the rows it affects, in one transaction.

`Guarded` is what such a commit leaves behind for good: a computation whose
generation is not older than the commit has read nothing older than it. Together with
the deletion of the rows this keeps stale rows out of the shared cache.
-/

namespace PrivacySuite.Rbac

open Go Concurrency PermissionCodec

namespace ResolverState

variable {r : Resolver} {s s' : ResolverState} {e : ResolverEvent} {i G : Nat}

/-- The generation a computation started under is one the cache has had. -/
def based (generation : Nat) (th : Thread) : Prop :=
  match th.pc with
  | .computing _ (some g) _ _ => g ≤ generation
  | _ => True

/-- A computation started under generation `G` or later has read nothing up to event `i`. -/
def guarded (i G : Nat) (th : Thread) : Prop :=
  match th.pc with
  | .computing _ (some g) _ reads => G ≤ g → ∀ time ∈ reads, i < time
  | _ => True

variable {owner : Bool} {rest : Reads Query Answer (Except String ResolvedPermissions)}
  {reads : List Nat} {tx : Transaction}

theorem afterCacheRead_ne_computing {c : Call} {join : Bool} {choice : Choice}
    {generation : Option Nat} :
    s.afterCacheRead c join choice ≠ .computing owner generation rest reads := by
  unfold afterCacheRead
  split <;> try split
  all_goals simp

theorem afterWait_ne_computing {verdict : Verdict} {generation : Option Nat} :
    afterWait verdict ≠ .computing owner generation rest reads := by
  unfold afterWait
  split <;> simp

theorem nextPc_computing {c : Call} {choice : Choice} {pc : Pc} {g : Nat}
    (h : s.nextPc r c choice pc = some (.computing owner (some g) rest reads)) :
    (g = s.generation ∧ reads = []) ∨
    ∃ rest₀ reads₀, pc = .computing owner (some g) rest₀ reads₀ ∧
      (reads = reads₀ ∨ reads = s.clock :: reads₀) := by
  generalize hpc' : Pc.computing owner (some g) rest reads = pc' at h
  cases moves_of_nextPc h with
  | read => exact absurd hpc'.symm afterCacheRead_ne_computing
  | inherited => exact absurd hpc'.symm afterWait_ne_computing
  | start =>
    obtain ⟨-, hg, -, hreads⟩ := Pc.computing.inj hpc'
    left
    split at hg
    · exact ⟨Option.some.inj hg, hreads⟩
    · cases hg
  | @ask _ _ q =>
    obtain ⟨rfl, rfl, -, rfl⟩ := Pc.computing.inj hpc'
    refine .inr ⟨_, _, rfl, ?_⟩
    cases q <;> simp [Query.stamp]
  | @failed owner₀ | @computed owner₀ => cases owner₀ <;> cases hpc'
  | join | unclaimed | claimed | cancelled | close | free => cases hpc'

/-- Every computation started under a generation the cache has had. -/
def Based (s : ResolverState) : Prop := ∀ t th, s.threads t = some th → based s.generation th

theorem Based.step (hs : Based s) (h : s.step r e = some s') : Based s' := by
  have hle := generation_le_step h
  intro t th hth
  unfold based
  split
  · rename_i g _ _ hcomputing
    rcases thread_cases h hth with hold | ⟨c, -, -, rfl⟩ | ⟨choice, pc, -, hold, hpc⟩
    · have hg := hs t th hold
      unfold based at hg
      rw [hcomputing] at hg
      exact le_trans hg hle
    · cases hcomputing
    · rw [hcomputing] at hpc
      rcases nextPc_computing hpc with ⟨rfl, -⟩ | ⟨rest₀, reads₀, rfl, -⟩
      · exact hle
      · exact le_trans (hs t _ hold) hle
  · trivial

/-- What a commit at event `i` that makes the generation `G` leaves behind. -/
structure Guarded (i G : Nat) (s : ResolverState) : Prop where
  clock : i < s.clock
  generation : G ≤ s.generation
  computing : ∀ t th, s.threads t = some th → guarded i G th

theorem Guarded.step (hs : Guarded i G s) (h : s.step r e = some s') : Guarded i G s' where
  clock := by
    have := hs.clock
    rw [clock_step h]
    omega
  generation := le_trans hs.generation (generation_le_step h)
  computing t th hth := by
    unfold guarded
    split
    · rename_i g _ reads hcomputing
      rcases thread_cases h hth with hold | ⟨c, -, -, rfl⟩ | ⟨choice, pc, -, hold, hpc⟩
      · have hg := hs.computing t th hold
        unfold guarded at hg
        rwa [hcomputing] at hg
      · cases hcomputing
      · rw [hcomputing] at hpc
        intro hG time htime
        rcases nextPc_computing hpc with ⟨-, rfl⟩ | ⟨rest₀, reads₀, rfl, hreads⟩
        · cases htime
        · -- the reads so far, and perhaps the one made now
          have hg := hs.computing t _ hold hG
          rcases hreads with rfl | rfl
          · exact hg time htime
          · rcases List.mem_cons.mp htime with rfl | hmem
            · exact hs.clock
            · exact hg time hmem
    · trivial

/-- A transaction that bumps the generation guards from there on, for every event up
to now. -/
theorem Based.guarded_commit (hs : Based s) (htx : tx.bumps = true) (hi : i ≤ s.clock) :
    Guarded i (s.generation + 1) (s.commit tx).tick where
  clock := by
    show i < s.clock + 1
    omega
  generation := by simp [tick, commit, htx]
  computing t th hth := by
    -- every computation so far is under an older generation
    have hbased := hs t th hth
    unfold based at hbased
    unfold guarded
    split
    · rename_i g _ _ hpc
      rw [hpc] at hbased
      intro hG
      simp only at hbased
      omega
    · trivial

/-- The row of a key, if there is one, was computed from nothing up to event `i`. -/
def FreshRow (i : Nat) (key : RowKey) (s : ResolverState) : Prop :=
  (s.sql.rows.lookup key).isSome → ∀ time ∈ s.rowReads key, i < time

theorem lookup_filter_isSome {κ ν : Type} [BEq κ] {l : List (κ × ν)} {keep : κ × ν → Bool} {key : κ}
    (h : ((l.filter keep).lookup key).isSome) : (l.lookup key).isSome := by
  obtain ⟨entry, hentry, hkey⟩ := List.lookup_isSome_iff.mp h
  exact List.lookup_isSome_iff.mpr ⟨entry, (List.mem_filter.mp hentry).1, hkey⟩

theorem FreshRow.step {key : RowKey} (hs : Guarded i G s) (hrow : FreshRow i key s)
    (h : s.step r e = some s') : FreshRow i key s' := by
  cases step_cases h with
  | called => exact hrow
  | stepped t choice th pc hth =>
    show (((s.apply t th.call (s.effect th.call choice th.pc)).sql.rows.lookup key).isSome →
      ∀ time ∈ (s.apply t th.call (s.effect th.call choice th.pc)).rowReads key, i < time)
    cases heffect : s.effect th.call choice th.pc with
    | nothing | claimSlot | freeSlot => exact hrow
    | publish p reads =>
      by_cases hkey : key = ⟨p.userID, p.orgID⟩
      · -- the new row: its computation read the generation of this moment
        subst hkey
        obtain ⟨owner, hpc⟩ := effect_publish heffect
        have hguard := hs.computing t th hth
        unfold guarded at hguard
        rw [hpc] at hguard
        intro _ time htime
        simp only [apply, Function.update_self] at htime
        exact hguard hs.generation time htime
      · intro hsome time htime
        simp only [apply, SqlCache.setCachedPermissions, lookup_mapSet_of_ne _ _ hkey] at hsome
        simp only [apply, Function.update_of_ne hkey] at htime
        exact hrow hsome time htime
  | committed | cleaned =>
    intro hsome time htime
    exact hrow (lookup_filter_isSome hsome) time htime

theorem lookup_commit_deleted {key : RowKey} (htx : tx.deletes key = true) :
    ((s.commit tx).sql.rows.lookup key).isSome = false := by
  rw [Option.isSome_eq_false_iff, Option.isNone_iff_eq_none]
  refine lookup_eq_none_of_keys fun entry hentry heq => ?_
  have hkeep := List.of_mem_filter hentry
  rw [heq, htx] at hkeep
  cases hkeep

theorem based_init (db : Database) (generation : Nat) : Based (init db generation) := by
  intro t th hth
  cases hth

/-- What a revocation leaves behind, for every key whose row it deleted. -/
theorem revocation_leaves {db : Database} {generation : Nat} {before after : List ResolverEvent}
    (h : run (step r) (init db generation) (before ++ .commit tx :: after) = some s)
    (hbumps : tx.bumps = true) {key : RowKey} (hdeletes : tx.deletes key = true) :
    ∃ G, Guarded before.length G s ∧ FreshRow before.length key s := by
  obtain ⟨s₁, s₂, hbefore, hcommit, hafter⟩ := run_cons_split h
  have hclock : s₁.clock = before.length := by
    have := clock_run hbefore
    simpa [init] using this
  have hbased : Based s₁ :=
    run_invariant (fun _ _ _ hs he => hs.step he) (based_init db generation) hbefore
  obtain rfl : (s₁.commit tx).tick = s₂ := Option.some.inj hcommit
  refine ⟨s₁.generation + 1, run_invariant
    (I := fun s => Guarded before.length (s₁.generation + 1) s ∧ FreshRow before.length key s)
    (fun _ _ _ hs he => ⟨hs.1.step he, hs.2.step hs.1 he⟩) ⟨?_, ?_⟩ hafter⟩
  · exact hbased.guarded_commit hbumps (by omega)
  · intro hsome
    have hgone := lookup_commit_deleted (s := s₁) hdeletes
    rw [show (s₁.commit tx).tick.sql = (s₁.commit tx).sql from rfl, hgone] at hsome
    cases hsome

/-- After a revocation has committed, the shared cache never holds, under a key it
deleted, a row computed from anything read before the commit. -/
theorem revoked_rows_fresh {db : Database} {generation : Nat} {before after : List ResolverEvent}
    {tx : Transaction}
    (h : run (step r) (init db generation) (before ++ .commit tx :: after) = some s)
    (hbumps : tx.bumps = true) {key : RowKey} (hdeletes : tx.deletes key = true)
    (hrow : (s.sql.rows.lookup key).isSome) : ∀ time ∈ s.rowReads key, before.length < time := by
  obtain ⟨G, -, hfresh⟩ := revocation_leaves h hbumps hdeletes
  exact hfresh hrow

/-- A call of process `0` for the user of `grantAnswers`. -/
def sampleCall : Call := ⟨0, "alice", "org"⟩

/-- The grant of `grantAnswers` loses its functions; the rows of its user go. -/
def sampleRevocation : Transaction :=
  { Transaction.invalidateCacheForUser "alice" with mutate := fun _ => grantAnswers (some []) }

/-- Call `t` of the user, and the first steps of it. -/
def sampleSteps (t steps : Nat) : List ResolverEvent :=
  .call t sampleCall :: List.replicate steps (.step t {})

/-- A call publishes, the revocation deletes the row, and a second call publishes
again: from reads after the commit. -/
theorem revoked_rows_fresh_recomputed :
    ∃ s, run (step ⟨5 * minute, .ok⟩) (init (grantAnswers none) 0)
        (sampleSteps 0 13 ++ .commit sampleRevocation :: sampleSteps 1 13) = some s ∧
      (s.sql.rows.lookup sampleCall.row).isSome ∧
        ∀ time ∈ s.rowReads sampleCall.row, 14 < time := by
  have hsome : (run (step ⟨5 * minute, .ok⟩) (init (grantAnswers none) 0)
      (sampleSteps 0 13 ++ .commit sampleRevocation :: sampleSteps 1 13)).any
        (fun s => (s.sql.rows.lookup sampleCall.row).isSome) = true := by decide
  obtain ⟨s, hs, hrow⟩ := (Option.any_eq_true _ _).mp hsome
  exact ⟨s, hs, hrow, revoked_rows_fresh hs rfl (by decide) hrow⟩

end ResolverState

end PrivacySuite.Rbac
