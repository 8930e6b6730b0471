import PrivacySuite.Reth.ApprovalDrops

/-!
# Sweeps of the Reth store

A turn of `sweep` removes the entry of the earliest timer or gives it a timer in the future,
whatever the two clocks say. So no entry has a second turn, and a sweep comes to an end.

The mark of the pool on an included transaction is not one of the things a sweep looks at: set
by a late report, it stays, and keeps the approval from being evicted until it expires.
-/

namespace PrivacySuite.Reth.Approvals

open Codec NodeApproval Data

/-- The hashes whose timers the loop of `sweep` handles, in its order. -/
def Store.handled (st : Store) (now : Now) (inPool : Hash → Bool) : Nat → State → List Hash
  | 0, _ => []
  | limit + 1, s =>
      match s.deadlines.first with
      | none => []
      | some timer =>
          if now.instant < (ofLex timer).1 then []
          else (ofLex (ofLex timer).2).2 ::
            st.handled now inPool limit (st.due s now inPool timer).1

def State.DueAt (s : State) (now : Now) (hash : Hash) : Prop :=
  ∃ e, s.entry hash = some e ∧ e.deadline ≤ now.instant

/-- A sweep handled the entries of these hashes: they were due, each had one turn and the
others are as before; with turns to spare, it left no timer that is due. -/
structure Sweeps (now : Now) (limit : Nat) (s s' : State) (handled : List Hash) : Prop where
  nodup : handled.Nodup
  length_le : handled.length ≤ limit
  due : ∀ hash ∈ handled, s.DueAt now hash
  frame : ∀ hash, hash ∉ handled → s'.entry hash = s.entry hash
  drained : handled.length < limit → ∀ timer ∈ s'.deadlines, now.instant < (ofLex timer).1

section Sweeps

variable {st : Store} {s s' : State} {now : Now} {limit : Nat} {hash : Hash} {handled : List Hash}

theorem sweeps_rest (h : ∀ timer ∈ s.deadlines, now.instant < (ofLex timer).1) :
    Sweeps now limit s s [] :=
  ⟨List.nodup_nil, Nat.zero_le limit, nofun, fun _ _ => rfl, fun _ => h⟩

theorem Turns.sweeps {turns : Nat} {inPool : Hash → Bool} {e : Entry} {turn : State × Option Hash}
    (h : Turns st s now turns inPool hash e turn) (hdue : s.DueAt now hash)
    (hrest : Sweeps now limit turn.1 s' handled) :
    Sweeps now (limit + 1) s s' (hash :: handled) := by
  have hlater : ∀ hash' ∈ handled, hash' ≠ hash ∧ s.DueAt now hash' := by
    intro hash' hmem
    obtain ⟨e', hentry, hle⟩ := hrest.due hash' hmem
    have hne : hash' ≠ hash := by
      rintro rfl
      exact absurd (h.later e' hentry) (Nat.not_lt.mpr hle)
    exact ⟨hne, e', (h.edits.frame hash' hne).symm.trans hentry, hle⟩
  refine ⟨List.nodup_cons.mpr ⟨fun hmem => (hlater hash hmem).1 rfl, hrest.nodup⟩,
    Nat.succ_le_succ hrest.length_le, ?_, ?_, fun hlt => hrest.drained (Nat.lt_of_succ_lt_succ hlt)⟩
  · rintro hash' (_ | ⟨_, hmem⟩)
    · exact hdue
    · exact (hlater hash' hmem).2
  · intro hash' hout
    rw [List.mem_cons, not_or] at hout
    exact (hrest.frame hash' hout.2).trans (h.edits.frame hash' hout.1)

theorem sweeps_handled (st : Store) (hs : Indexed s) (now : Now) (inPool : Hash → Bool)
    (limit : Nat)
    (dropped : List Hash) :
    Sweeps now limit s (st.sweepLoop now inPool limit s dropped).1
      (st.handled now inPool limit s) := by
  induction limit generalizing s dropped with
  | zero => exact ⟨List.nodup_nil, le_refl 0, nofun, fun _ _ => rfl, nofun⟩
  | succ limit ih =>
    unfold Store.handled Store.sweepLoop
    cases hfirst : s.deadlines.first with
    | none => exact sweeps_rest fun timer hmem => absurd hmem (OrdSet.first_eq_none.mp hfirst timer)
    | some timer =>
      obtain ⟨hmem, hleast⟩ := OrdSet.first_eq_some.mp hfirst
      by_cases hfuture : now.instant < (ofLex timer).1
      · simp only [hfuture, if_true]
        refine sweeps_rest fun timer' hmem' => ?_
        exact lt_of_lt_of_le hfuture (Prod.Lex.monotone_fst_ofLex (hleast timer' hmem'))
      · simp only [hfuture, if_false]
        obtain ⟨hash, e, rfl, hentry, hturn⟩ := due_spec st hs hmem now limit inPool
        exact hturn.sweeps ⟨e, hentry, Nat.le_of_not_lt hfuture⟩ (ih (hturn.edits.indexed hs) _)

end Sweeps

/-- Whatever its limit, a sweep has no more turns than there are entries, and it returns the
earliest timer that is left. -/
theorem sweep_progress (st : Store) {s : State} (hs : Indexed s) (now : Now) (limit : Nat)
    (inPool : Hash → Bool) :
    Sweeps now limit s (st.sweep s now limit inPool).1 (st.handled now inPool limit s) ∧
      (st.handled now inPool limit s).length ≤ s.entries.keys.length ∧
      (∀ t, (st.sweep s now limit inPool).2.2 = some t →
        IsLeast {t | ∃ timer ∈ (st.sweep s now limit inPool).1.deadlines, (ofLex timer).1 = t} t) ∧
      ((st.sweep s now limit inPool).2.2 = none →
        ∀ timer, timer ∉ (st.sweep s now limit inPool).1.deadlines) := by
  have hsweeps := sweeps_handled st hs now inPool limit []
  refine ⟨hsweeps, ?_, ?_, ?_⟩
  · apply (List.subperm_of_subset hsweeps.nodup ?_).length_le
    intro hash hmem
    obtain ⟨e, hentry, -⟩ := hsweeps.due hash hmem
    exact AList.lookup_isSome.mp (Option.isSome_of_eq_some hentry)
  · intro t ht
    obtain ⟨timer, hfirst, rfl⟩ := Option.map_eq_some_iff.mp ht
    obtain ⟨hmem, hleast⟩ := OrdSet.first_eq_some.mp hfirst
    refine ⟨⟨timer, hmem, rfl⟩, ?_⟩
    rintro _ ⟨timer', hmem', rfl⟩
    exact Prod.Lex.monotone_fst_ofLex (hleast timer' hmem')
  · intro ht
    exact OrdSet.first_eq_none.mp (Option.map_eq_none_iff.mp ht)

theorem lateReport_swept :
    ((⟨5000000000, 10, 0⟩ : Store).handled ⟨70000000000, 1500⟩ (fun _ => false) 16
      ((⟨5000000000, 10, 0⟩ : Store).run lateReport)).Nodup :=
  (sweep_progress _ (indexed_run _ lateReport) _ _ _).1.nodup

/-! ## Included approvals -/

/-- What is true before and behind each sweep of a run that handles a valid approval which is
marked as included, its transaction gone from the pool, and at each moment `ms` at which the
approval is as old as the grace period. -/
def WhenHandled (st : Store) (ops : List Op) (P : State → State → Hash → UInt64 → Prop) : Prop :=
  ∀ before now limit inPool after, ops = before ++ .sweep now limit inPool :: after →
    ∀ hash ∈ st.handled now inPool limit (st.run before), inPool hash = false →
      ∀ e a ms, (st.run before).entry hash = some e → e.included ≠ none → e.approval = some a →
        now.ms < a.expiresAt → st.grace.toNat ≤ State.age ms a.issuedAt.toNat →
          P (st.run before) (st.run (before ++ [.sweep now limit inPool])) hash ms

def BecomesEvictable (st : Store) (ops : List Op) : Prop :=
  WhenHandled st ops fun _ s' hash ms => OldInClass s' ms st.grace includedClass hash

def NoneStillPooled (st : Store) (ops : List Op) : Prop :=
  WhenHandled st ops fun s _ hash _ => s.pooledOf hash = none

/-- A sweep only sets the timer of a valid approval that is marked as included. -/
theorem entry_sweep_included (st : Store) {s : State} (hs : Indexed s) {hash : Hash} {e : Entry}
    {a : Approval} {now : Now} (he : s.entry hash = some e) (hincluded : e.included ≠ none)
    (ha : e.approval = some a) (hlive : now.ms < a.expiresAt) (limit : Nat) (inPool : Hash → Bool) :
    ∃ deadline, (st.apply s (.sweep now limit inPool)).entry hash = some { e with deadline } := by
  refine @apply_induction st s hs _ hash (fun x => ∃ deadline, x = some { e with deadline })
    ⟨e.deadline, he⟩ ?_
  rintro x y hmove ⟨deadline, rfl⟩
  cases hmove with
  | rested => exact ⟨_, rfl⟩
  | leaves _ _ hnone => exact absurd hnone hincluded
  | timedOut _ hgone | waits _ hgone | forgotten _ hgone =>
    exact absurd (hgone a ha) (UInt64.not_le.mpr hlive)

/-- In every run, an included approval becomes evictable with its next timer exactly if the
mark of the pool is gone by then; it is in particular when the pool does not report
transactions that are recorded as included. -/
theorem becomesEvictable_iff (st : Store) (ops : List Op) :
    (BecomesEvictable st ops ↔ NoneStillPooled st ops) ∧
      (NoneReportedLate ops → NoneStillPooled st ops) := by
  refine ⟨?_, ?_⟩
  · refine forall₄_congr fun before now limit inPool => forall₄_congr fun after _ hash _ => ?_
    refine forall₄_congr fun _ e a ms => forall₄_congr fun he hincluded ha hlive =>
      forall_congr' fun hold => ?_
    obtain ⟨deadline, hafter⟩ :=
      entry_sweep_included st (indexed_run st before) he hincluded ha hlive limit inPool
    rw [← Store.run_concat] at hafter
    show OldInClass _ _ _ _ _ ↔ ((st.run before).entry hash).bind Entry.pooled = none
    rw [he, Option.bind_some]
    constructor
    · rintro ⟨e', a', he', -, hclass, -⟩
      obtain rfl := Option.some.inj (hafter.symm.trans he')
      exact (evictionClass_eq_some.mp hclass).1
    · intro hpooled
      exact ⟨_, a, hafter, ha, evictionClass_eq_some.mpr ⟨hpooled, .inl ⟨rfl, hincluded⟩⟩, hold⟩
  · rintro hlate before now limit inPool after rfl hash _ _ e a ms he hincluded _ _ _
    obtain ⟨block, hblock⟩ := Option.ne_none_iff_exists'.mp hincluded
    exact pooledOf_of_recorded st before hlate.before (recorded_of_included st before he hblock)

theorem reported_not_evictable :
    ¬ BecomesEvictable ⟨5000000000, 10, 0⟩
      [.putBatch [sampleApproval 1 1000 60000] ⟨0, 1000⟩, .included 5 [repeatByte 1] ⟨100, 1000⟩,
        .seenAt (repeatByte 1) 100 ⟨200, 1000⟩, .sweep ⟨7000000000, 8000⟩ 16 fun _ => false] := by
  intro h
  obtain ⟨e, -, he, -, hclass, -⟩ :=
    h [_, _, _] _ _ _ [] rfl (repeatByte 1) (by decide) rfl _ _ 8000
    rfl nofun rfl (by decide) (by decide)
  obtain rfl := Option.some.inj he
  cases hclass

end PrivacySuite.Reth.Approvals
