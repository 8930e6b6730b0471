import PrivacySuite.Reth.ApprovalHistories

/-!
# Transactions the Reth store drops

`sweep` passes a transaction to `remove_tx` when its wait is over. The wait is traced back to
the report of the pool that began it and to the first `Status` call. A transaction that is
recorded as included is spared only as long as the pool does not report it again: with both
marks on its entry, the arm for expired approvals looks at the wait alone.
-/

namespace PrivacySuite.Reth.Approvals

open Codec NodeApproval Data List

/-- Pool admission of a transaction, while it is pooled. -/
def State.pooledOf (s : State) (hash : Hash) : Option Instant := (s.entry hash).bind Entry.pooled

variable {hash : Hash} {t : Instant} {block : UInt64}

theorem pooledOf_eq_some {s : State} :
    s.pooledOf hash = some t ↔ ∃ e, s.entry hash = some e ∧ e.pooled = some t :=
  Option.bind_eq_some_iff

/-! ## Where a pool mark comes from -/

/-- The transaction is pooled since a report of the pool, the first since it was last not
pooled. -/
inductive Admitted (st : Store) (hash : Hash) (arrived : Instant) : List Op → Prop where
  | here {ops : List Op} {now : Now} (hnew : (st.run ops).pooledOf hash = none) :
      Admitted st hash arrived (ops ++ [.seenAt hash arrived now])
  | earlier {ops : List Op} {op : Op} (h : Admitted st hash arrived ops)
      (hkept : (st.run (ops ++ [op])).pooledOf hash ≠ none) : Admitted st hash arrived (ops ++ [op])

theorem Moves.pooled_from {st : Store} {first : Option Instant} {fin : UInt64} {op : Op}
    {x : Option Entry} {e : Entry} (h : Moves st first fin op hash x (some e))
    (ht : e.pooled = some t) :
    (∃ e₀, x = some e₀ ∧ e₀.pooled = some t) ∨ ∃ now, op = .seenAt hash t now := by
  cases h with
  | arrives | joins =>
    cases ht
    exact .inr ⟨_, rfl⟩
  | stored | mined | leaves => cases ht
  | _ => exact .inl ⟨_, rfl, ht⟩

section Marks

variable (st : Store) {s : State} {hash : Hash} {t : Instant}

theorem pooledOf_apply (hs : Indexed s) {op : Op} (h : (st.apply s op).pooledOf hash = some t) :
    s.pooledOf hash = some t ∨ ∃ now, op = .seenAt hash t now := by
  obtain ⟨e, he, ht⟩ := pooledOf_eq_some.mp h
  exact (entry_traced_or st hs (fun e => e.pooled = some t) (fun x e hmove h => hmove.pooled_from h)
    he ht).imp_left pooledOf_eq_some.mpr

theorem seenAt_pooled (h : s.pooledOf hash ≠ none) (arrived : Instant) (now : Now) :
    st.seenAt s hash arrived now = s := by
  obtain ⟨t, ht⟩ := Option.ne_none_iff_exists'.mp h
  obtain ⟨e, he, hpooled⟩ := pooledOf_eq_some.mp ht
  unfold Store.seenAt
  simp [he, hpooled]

theorem admitted_of_pooled (ops : List Op) (h : (st.run ops).pooledOf hash = some t) :
    Admitted st hash t ops := by
  induction ops using List.reverseRecOn with
  | nil => cases h
  | append_singleton ops op ih =>
    have hafter := h
    rw [Store.run_concat] at h
    by_cases hbefore : (st.run ops).pooledOf hash = some t
    · exact .earlier (ih hbefore) (by rw [hafter]; nofun)
    · obtain ⟨now, rfl⟩ := (pooledOf_apply st (indexed_run st ops) h).resolve_left hbefore
      refine .here ?_
      by_contra hpooled
      -- a report of a pooled transaction leaves the mark it has
      rw [Store.apply, seenAt_pooled st hpooled] at h
      exact hbefore h

end Marks

/-! ## The first `Status` call -/

def Op.status : Op → Option Instant
  | .statusSeen now => some now.instant
  | _ => none

/-- The moment of the first `Status` call of a run. -/
def firstStatusOf (ops : List Op) : Option Instant := (ops.filterMap Op.status).head?

theorem firstStatus_run (st : Store) (ops : List Op) :
    (st.run ops).firstStatus = firstStatusOf ops := by
  induction ops using List.reverseRecOn with
  | nil => rfl
  | append_singleton ops op ih =>
    rw [Store.run_concat, firstStatus_apply st (indexed_run st ops), firstStatusOf,
      filterMap_append, head?_append, ← firstStatusOf, ← ih]
    cases op with
    | statusSeen now =>
      simp only [Op.base]
      cases hfirst : (st.run ops).firstStatus with
      | none => rfl
      | some t =>
        show (st.run ops).firstStatus = some t
        exact hfirst
    | _ => exact (Option.or_none).symm

/-! ## Inclusion and the pool mark -/

section Included

variable {s : State} {hash : Hash} {block : UInt64} {now : Now}

theorem pooledOf_includeOne {hash' : Hash} (h : hash = hash' ∨ s.pooledOf hash = none) :
    (Store.includeOne block now s hash').pooledOf hash = none := by
  by_cases hsame : hash = hash'
  · subst hsame
    unfold Store.includeOne
    cases hentry : s.entry hash with
    | none =>
      rw [State.pooledOf, hentry]
      rfl
    | some e =>
      cases happroval : e.approval with
      | none =>
        simp only [happroval, State.pooledOf, entry_remove]
        rfl
      | some a =>
        simp only [happroval]
        split
        · rw [State.pooledOf, entry_remove]
          rfl
        · rw [State.pooledOf, entry_modify, hentry]
          rfl
  · have hframe : (Store.includeOne block now s hash').entry hash = s.entry hash := by
      unfold Store.includeOne
      cases s.entry hash' with
      | none => rfl
      | some e =>
        cases happroval : e.approval with
        | none =>
          simp only [happroval]
          exact edits_remove.frame hash hsame
        | some a =>
          simp only [happroval]
          split
          · exact edits_remove.frame hash hsame
          · exact (edits_modify _).frame hash hsame
    rw [State.pooledOf, hframe]
    exact h.resolve_left hsame

theorem pooledOf_included {hashes : List Hash} (h : hash ∈ hashes ∨ s.pooledOf hash = none) :
    (Store.included s block hashes now).pooledOf hash = none := by
  unfold Store.included
  induction hashes generalizing s with
  | nil => exact h.resolve_left (not_mem_nil)
  | cons x hashes ih =>
    rw [foldl_cons]
    apply ih
    rcases h with hmem | h
    · rcases mem_cons.mp hmem with rfl | hmem
      · exact .inr (pooledOf_includeOne (.inl rfl))
      · exact .inl hmem
    · exact .inr (pooledOf_includeOne (.inr h))

end Included

/-! ## What a sweep drops -/

/-- What goes to `remove_tx` was reported by the pool, has no valid approval, and has waited
its time. -/
theorem dropped_waited (st : Store) (ops : List Op) {now : Now} {limit : Nat} {inPool : Hash → Bool}
    (h : hash ∈ (st.sweep (st.run ops) now limit inPool).2.1) :
    ∃ e, (st.run ops).entry hash = some e ∧ WaitOver st (firstStatusOf ops) now e := by
  have hloop := (evolves_sweepLoop st (indexed_run st ops) now inPool limit limit []).2 hash h
  rcases hloop with hnil | hover
  · cases hnil
  · rw [firstStatus_run] at hover
    exact hover

/-- The wait of a transaction over a whole run: what a sweep drops was reported by the
pool, has no valid approval and has waited its time since the report, it is not recorded
as included, and reporting a pooled transaction again changes nothing. -/
def WaitsOut (st : Store) (ops : List Op) : Prop :=
  (∀ before now limit inPool after, ops = before ++ .sweep now limit inPool :: after →
    ∀ hash ∈ (st.sweep (st.run before) now limit inPool).2.1,
      (∃ arrived, Admitted st hash arrived before ∧
        st.waitEnd (firstStatusOf before) arrived ≤ now.instant) ∧
      (∀ a, (st.run before).approvalOf hash = some a → a.expiresAt ≤ now.ms) ∧
      ∀ block, ¬ Recorded hash block before) ∧
  ∀ before hash arrived now after, ops = before ++ .seenAt hash arrived now :: after →
    (st.run before).pooledOf hash ≠ none →
      st.run (before ++ [.seenAt hash arrived now]) = st.run before

/-- No sweep finds a transaction that is recorded as included and is yet marked as pooled,
without a valid approval and with its wait over. -/
def NoneOverdue (st : Store) (ops : List Op) : Prop :=
  ∀ before now limit inPool after, ops = before ++ .sweep now limit inPool :: after →
    ∀ hash block e, Recorded hash block before → (st.run before).entry hash = some e →
      ¬ WaitOver st (firstStatusOf before) now e

/-- The pool does not report a transaction that is recorded as included. -/
def NoneReportedLate (ops : List Op) : Prop :=
  ∀ before hash arrived now after, ops = before ++ .seenAt hash arrived now :: after →
    ∀ block, ¬ Recorded hash block before

theorem NoneReportedLate.before {before after : List Op}
    (h : NoneReportedLate (before ++ after)) : NoneReportedLate before := by
  rintro pre hash arrived now post rfl
  exact h pre hash arrived now (post ++ after) (by simp)

/-- Without late reports, what is recorded as included is not pooled. -/
theorem pooledOf_of_recorded (st : Store) (ops : List Op) (h : NoneReportedLate ops)
    (hrecorded : Recorded hash block ops) : (st.run ops).pooledOf hash = none := by
  induction hrecorded with
  | here hmem =>
    rw [Store.run_concat]
    exact pooledOf_included (.inl hmem)
  | @earlier ops op hrecorded hkept ih =>
    rw [Store.run_concat]
    by_contra hpooled
    obtain ⟨t, ht⟩ := Option.ne_none_iff_exists'.mp hpooled
    rcases pooledOf_apply st (indexed_run st ops) ht with hold | ⟨now, rfl⟩
    · rw [ih h.before] at hold
      cases hold
    · exact h ops hash t now [] rfl block hrecorded

/-- In every run in which no sweep finds the wait of an included transaction over, what is
dropped has waited its time and is not recorded as included; this is so in particular when
the pool does not report included transactions. -/
theorem waitsOut_of_noneOverdue (st : Store) (ops : List Op) :
    (NoneOverdue st ops → WaitsOut st ops) ∧ (NoneReportedLate ops → NoneOverdue st ops) := by
  constructor
  · intro hnone
    refine ⟨?_, ?_⟩
    · intro before now limit inPool after hops hash hmem
      obtain ⟨e, he, hover⟩ := dropped_waited st before hmem
      obtain ⟨arrived, hpooled, hexpired, hend⟩ := hover
      refine ⟨⟨arrived, ?_, hend⟩, ?_, ?_⟩
      · exact admitted_of_pooled st before (pooledOf_eq_some.mpr ⟨e, he, hpooled⟩)
      · intro a ha
        obtain ⟨e', he', ha⟩ := approvalOf_eq_some.mp ha
        obtain rfl := Option.some.inj (he.symm.trans he')
        exact hexpired a ha
      · intro block hrecorded
        exact hnone before now limit inPool after hops hash block e hrecorded he
          ⟨arrived, hpooled, hexpired, hend⟩
    · intro before hash arrived now after _ hpooled
      rw [Store.run_concat]
      exact seenAt_pooled st hpooled arrived now
  · rintro hlate before now limit inPool after rfl hash block e hrecorded he ⟨arrived, hpooled, -⟩
    have hnone := pooledOf_of_recorded st before hlate.before hrecorded
    rw [State.pooledOf, he, Option.bind_some, hpooled] at hnone
    cases hnone

theorem Recorded.ne_nil {ops : List Op} (h : Recorded hash block ops) : ops ≠ [] := by
  cases h with
  | here | earlier => exact append_ne_nil_of_right_ne_nil _ (cons_ne_nil _ _)

/-- A transaction that waits out its time without an approval. -/
theorem waitsOut_unapproved :
    WaitsOut ⟨5000000000, 10, 0⟩
      [.seenAt (repeatByte 1) 0 ⟨0, 1000⟩, .sweep ⟨70000000000, 71000⟩ 16 fun _ => true] := by
  obtain ⟨hruns, hreports⟩ := waitsOut_of_noneOverdue ⟨5000000000, 10, 0⟩
    [.seenAt (repeatByte 1) 0 ⟨0, 1000⟩, .sweep ⟨70000000000, 71000⟩ 16 fun _ => true]
  apply hruns
  apply hreports
  intro before hash arrived now after hops block hrecorded
  rcases append_eq_cons_iff.mp hops.symm with ⟨hnil, -⟩ | ⟨rest, -, htail⟩
  · exact hrecorded.ne_nil hnil
  · rcases append_eq_cons_iff.mp htail.symm with ⟨-, hcall⟩ | ⟨rest', -, hnone⟩
    · cases hcall
    · cases rest' <;> cases hnone

/-- An approval is included, its transaction reported by the pool only then, and both
forgotten about until long after the approval has expired. -/
def lateReport : List Op :=
  [.putBatch [sampleApproval 1 1000 2000] ⟨0, 1000⟩, .included 5 [repeatByte 1] ⟨100, 1000⟩,
    .seenAt (repeatByte 1) 100 ⟨200, 1000⟩]

theorem dropped_while_included :
    ¬ WaitsOut ⟨5000000000, 10, 0⟩
      (lateReport ++ [.sweep ⟨70000000000, 71000⟩ 16 fun _ => false]) := by
  intro h
  have hdropped : repeatByte 1 ∈ ((⟨5000000000, 10, 0⟩ : Store).sweep
      ((⟨5000000000, 10, 0⟩ : Store).run lateReport) ⟨70000000000, 71000⟩ 16
        fun _ => false).2.1 := by decide
  have hrecorded : Recorded (repeatByte 1) 5 lateReport := by
    show Recorded (repeatByte 1) 5 (([_] ++ [.included 5 [repeatByte 1] _]) ++ [.seenAt _ _ _])
    exact .earlier (.here mem_cons_self) (by simp)
  exact (h.1 lateReport _ _ _ [] rfl _ hdropped).2.2 5 hrecorded

end PrivacySuite.Reth.Approvals
