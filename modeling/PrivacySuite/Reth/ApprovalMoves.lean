import PrivacySuite.Reth.ApprovalVictims

/-!
# What a call of the Reth store does to an entry

`Moves` lists, once, every change a call can make to the entry of a hash, with what is
known when it makes it: a small state machine for the life of one entry. Each call is a
sequence of such changes (`Evolves`), each of which keeps the indexes. The invariants and
the histories of the store are read off the list, and not off the calls.
-/

namespace PrivacySuite.Reth.Approvals

open Codec NodeApproval Data Store List

inductive Op where
  | seenAt (hash : Hash) (arrived : Instant) (now : Now)
  | putBatch (batch : List Approval) (now : Now)
  | statusSeen (now : Now)
  | included (block : UInt64) (hashes : List Hash) (now : Now)
  | reverted (block : UInt64) (hashes : List Hash)
  | finalized (block : UInt64)
  | sweep (now : Now) (limit : Nat) (inPool : Hash → Bool)

/-- The reading of the clocks a call is made with. -/
def Op.now : Op → Option Now
  | .seenAt _ _ now => some now
  | .putBatch _ now => some now
  | .statusSeen now => some now
  | .included _ _ now => some now
  | .reverted _ _ => none
  | .finalized _ => none
  | .sweep now _ _ => some now

def Store.apply (st : Store) (s : State) : Op → State
  | .seenAt hash arrived now => st.seenAt s hash arrived now
  | .putBatch batch now => (st.putBatch s batch now).2
  | .statusSeen now => st.statusSeen s now
  | .included block hashes now => Store.included s block hashes now
  | .reverted block hashes => Store.reverted s block hashes
  | .finalized block => Store.finalized s block
  | .sweep now limit inPool => (st.sweep s now limit inPool).1

def Store.run (st : Store) (ops : List Op) : State := ops.foldl st.apply State.init

theorem Store.run_concat (st : Store) (ops : List Op) (op : Op) :
    st.run (ops ++ [op]) = st.apply (st.run ops) op := by
  rw [run, foldl_append]
  rfl

/-! ## The life of an entry -/

/-- The changes a call can make to the entry of a hash; `first` is the first `Status` call
and `fin` the finalized height while the call makes them. -/
inductive Moves (st : Store) (first : Option Instant) (fin : UInt64) :
    Op → Hash → Option Entry → Option Entry → Prop where
  -- the pool announces a transaction nothing is known of
  | arrives {hash : Hash} {arrived : Instant} {now : Now} {generation : UInt64} :
      Moves st first fin (.seenAt hash arrived now) hash none
        (some ⟨none, some arrived, none, st.waitEnd first arrived, generation⟩)
  -- the pool announces the transaction of an approval
  | joins {hash : Hash} {arrived : Instant} {now : Now} {e : Entry} {a : Approval}
      (hpooled : e.pooled = none) (happroval : e.approval = some a) :
      Moves st first fin (.seenAt hash arrived now) hash (some e)
        (some { e with
          pooled := some arrived
          deadline := min (now.instantOf a.expiresAt) (now.instant + recheck) })
  -- an approval goes for a new batch, with its entry
  | evicted {hash : Hash} {batch : List Approval} {now : Now} {e : Entry} {a : Approval}
      (hunnamed : hash ∉ batch.map Approval.txHash) (happroval : e.approval = some a)
      (hpooled : e.pooled = none)
      (hgoes : a.expiresAt ≤ now.ms ∨ st.grace.toNat ≤ State.age now.ms a.issuedAt.toNat) :
      Moves st first fin (.putBatch batch now) hash (some e) none
  -- an expired approval goes for a new batch, its pooled transaction waits on
  | emptied {hash : Hash} {batch : List Approval} {now : Now} {e : Entry} {a : Approval}
      {arrived : Instant} (hunnamed : hash ∉ batch.map Approval.txHash)
      (happroval : e.approval = some a) (hpooled : e.pooled = some arrived)
      (hexpired : a.expiresAt ≤ now.ms) :
      Moves st first fin (.putBatch batch now) hash (some e)
        (some { e with approval := none, deadline := st.waitEnd first arrived })
  -- an approval nothing is known of
  | stored {batch : List Approval} {now : Now} {a : Approval} {generation : UInt64}
      (hmem : a ∈ batch) :
      Moves st first fin (.putBatch batch now) a.txHash none
        (some ⟨some a, none, none, now.instantOf a.expiresAt, generation⟩)
  -- an approval for a waiting transaction, or in the place of a lesser one
  | replaced {batch : List Approval} {now : Now} {a : Approval} {e : Entry} {deadline : Instant}
      (hmem : a ∈ batch) (hrank : ∀ old, e.approval = some old → rank old < rank a)
      (hdeadline : deadline ≤ now.instantOf a.expiresAt) :
      Moves st first fin (.putBatch batch now) a.txHash (some e)
        (some { e with approval := some a, deadline := deadline })
  -- the first `Status` call sets the window of a waiting transaction
  | windowed {hash : Hash} {now : Now} {e : Entry} {arrived : Instant}
      (happroval : e.approval = none) (hpooled : e.pooled = some arrived) :
      Moves st first fin (.statusSeen now) hash (some e)
        (some { e with deadline := st.waitEnd first arrived })
  -- a waiting transaction was mined elsewhere
  | minedElsewhere {hash : Hash} {block : UInt64} {hashes : List Hash} {now : Now} {e : Entry}
      (hmem : hash ∈ hashes) (happroval : e.approval = none) :
      Moves st first fin (.included block hashes now) hash (some e) none
  -- a transaction was mined in a block that is final
  | minedFinal {hash : Hash} {block : UInt64} {hashes : List Hash} {now : Now} {e : Entry}
      {a : Approval} (hmem : hash ∈ hashes) (happroval : e.approval = some a)
      (hfinal : block ≤ fin) :
      Moves st first fin (.included block hashes now) hash (some e) none
  -- a transaction was mined
  | mined {hash : Hash} {block : UInt64} {hashes : List Hash} {now : Now} {e : Entry}
      {a : Approval} (hmem : hash ∈ hashes) (happroval : e.approval = some a)
      (hfinal : ¬ block ≤ fin) :
      Moves st first fin (.included block hashes now) hash (some e)
        (some { e with
          included := some block
          pooled := none
          deadline := now.instantOf a.expiresAt })
  -- its block left the canonical chain
  | unmined {hash : Hash} {block : UInt64} {hashes : List Hash} {e : Entry}
      (hmem : hash ∈ hashes) (hincluded : e.included = some block) :
      Moves st first fin (.reverted block hashes) hash (some e) (some { e with included := none })
  -- its block became final
  | released {hash : Hash} {block b : UInt64} {e : Entry} {a : Approval}
      (happroval : e.approval = some a) (hincluded : e.included = some b) (hfinal : b ≤ fin) :
      Moves st first fin (.finalized block) hash (some e) none
  -- a wait is over
  | timedOut {hash : Hash} {now : Now} {limit : Nat} {inPool : Hash → Bool} {e : Entry}
      {arrived : Instant} (hpooled : e.pooled = some arrived)
      (happroval : ∀ a, e.approval = some a → a.expiresAt ≤ now.ms)
      (hover : st.waitEnd first arrived ≤ now.instant) :
      Moves st first fin (.sweep now limit inPool) hash (some e) none
  -- a transaction without a valid approval waits on
  | waits {hash : Hash} {now : Now} {limit : Nat} {inPool : Hash → Bool} {e : Entry}
      {arrived : Instant} (hpooled : e.pooled = some arrived)
      (happroval : ∀ a, e.approval = some a → a.expiresAt ≤ now.ms) :
      Moves st first fin (.sweep now limit inPool) hash (some e)
        (some { e with approval := none, deadline := st.waitEnd first arrived })
  -- nothing waits for what has expired, or there is nothing at all
  | forgotten {hash : Hash} {now : Now} {limit : Nat} {inPool : Hash → Bool} {e : Entry}
      (hpooled : e.pooled = none) (happroval : ∀ a, e.approval = some a → a.expiresAt ≤ now.ms) :
      Moves st first fin (.sweep now limit inPool) hash (some e) none
  -- a valid approval gets its next timer
  | rested {hash : Hash} {now : Now} {limit : Nat} {inPool : Hash → Bool} {e : Entry}
      {a : Approval} {deadline : Instant} (happroval : e.approval = some a)
      (hlive : now.ms < a.expiresAt) (hdeadline : deadline ≤ now.instantOf a.expiresAt) :
      Moves st first fin (.sweep now limit inPool) hash (some e)
        (some { e with deadline := deadline })
  -- a transaction left the pool without inclusion
  | leaves {hash : Hash} {now : Now} {limit : Nat} {inPool : Hash → Bool} {e : Entry}
      {a : Approval} (happroval : e.approval = some a) (hlive : now.ms < a.expiresAt)
      (hincluded : e.included = none) (hgone : inPool hash = false) :
      Moves st first fin (.sweep now limit inPool) hash (some e)
        (some { e with pooled := none, deadline := now.instantOf a.expiresAt })

/-! ## Sequences of changes -/

/-- `s'` comes from `s` by changes of single entries that `R` allows. -/
inductive Evolves (R : Hash → Option Entry → Option Entry → Prop) : State → State → Prop where
  | refl (s : State) : Evolves R s s
  | step {s s₁ s' : State} {hash : Hash} (hedit : Edits s s₁ hash)
      (hmove : R hash (s.entry hash) (s₁.entry hash)) (hrest : Evolves R s₁ s') : Evolves R s s'

namespace Evolves

variable {R : Hash → Option Entry → Option Entry → Prop} {s s₁ s' : State}

theorem one {hash : Hash} (hedit : Edits s s' hash)
    (hmove : R hash (s.entry hash) (s'.entry hash)) : Evolves R s s' :=
  .step hedit hmove (.refl s')

theorem trans (h : Evolves R s s₁) (h' : Evolves R s₁ s') : Evolves R s s' := by
  induction h with
  | refl s => exact h'
  | step hedit hmove _ ih => exact .step hedit hmove (ih h')

theorem indexed (h : Evolves R s s') (hs : Indexed s) : Indexed s' := by
  induction h with
  | refl s => exact hs
  | step hedit _ _ ih => exact ih (hedit.indexed hs)

theorem finalized (h : Evolves R s s') : s'.finalized = s.finalized := by
  induction h with
  | refl s => rfl
  | step hedit _ _ ih => rw [ih, hedit.finalized]

theorem firstStatus (h : Evolves R s s') : s'.firstStatus = s.firstStatus := by
  induction h with
  | refl s => rfl
  | step hedit _ _ ih => rw [ih, hedit.firstStatus]

/-- What the changes make of the entry of one hash. -/
theorem entry (h : Evolves R s s') (hash : Hash) :
    Relation.ReflTransGen (R hash) (s.entry hash) (s'.entry hash) := by
  induction h with
  | refl s => exact .refl
  | @step s s₁ s' hash' hedit hmove _ ih =>
    by_cases hsame : hash = hash'
    · subst hsame
      exact .head hmove ih
    · rw [← hedit.frame hash hsame]
      exact ih

theorem foldl {α : Type} {f : State → α → State} {xs : List α}
    (hf : ∀ s', Indexed s' → s'.finalized = s.finalized → s'.firstStatus = s.firstStatus →
      ∀ x ∈ xs, Evolves R s' (f s' x)) (hs : Indexed s) :
    Evolves R s (xs.foldl f s) := by
  induction xs generalizing s with
  | nil => exact .refl s
  | cons x xs ih =>
    have hfirst := hf s hs rfl rfl x mem_cons_self
    rw [foldl_cons]
    refine hfirst.trans (ih ?_ (hfirst.indexed hs))
    intro s' hs' hfin hstatus y hy
    exact hf s' hs' (hfin.trans hfirst.finalized) (hstatus.trans hfirst.firstStatus) y
      (mem_cons_of_mem x hy)

end Evolves

/-! ## The calls -/

section Calls

variable {st : Store} {s : State}

theorem evolves_seenAt (hash : Hash) (arrived : Instant) (now : Now) :
    Evolves (Moves st s.firstStatus s.finalized (.seenAt hash arrived now)) s
      (st.seenAt s hash arrived now) := by
  unfold Store.seenAt
  cases hentry : s.entry hash with
  | none =>
    refine .one (edits_insert _ hentry) ?_
    rw [hentry, entry_insert]
    exact .arrives
  | some e =>
    by_cases hpooled : e.pooled.isSome
    · simp only [hpooled, if_true]
      exact .refl s
    · simp only [hpooled, Bool.false_eq_true, if_false]
      cases happroval : e.approval with
      | none => exact .refl s
      | some a =>
        refine .one (edits_modify _) ?_
        rw [entry_modify, hentry]
        exact .joins (Option.not_isSome_iff_eq_none.mp hpooled) happroval

variable {batch : List Approval} {now : Now} {hash : Hash}

theorem evolves_evict (fin : UInt64)
    (h : Evictable s now.ms st.grace (batch.map Approval.txHash) hash) :
    Edits s (st.evict s hash) hash ∧
      Moves st s.firstStatus fin (.putBatch batch now) hash (s.entry hash)
        ((st.evict s hash).entry hash) := by
  obtain ⟨hunnamed, e, a, hentry, happroval, hgoes⟩ := h
  unfold evict
  rw [hentry, Option.bind_some]
  cases hpooled : e.pooled with
  | some arrived =>
    refine ⟨edits_modify _, ?_⟩
    rw [entry_modify, hentry]
    rcases hgoes with hexpired | ⟨hnone, -⟩
    · exact .emptied hunnamed happroval hpooled hexpired
    · rw [hpooled] at hnone
      cases hnone
  | none =>
    refine ⟨edits_remove, ?_⟩
    rw [entry_remove]
    exact .evicted hunnamed happroval hpooled (hgoes.imp id And.right)

/-- Distinct approvals that may all go: evicting one leaves the others as they are. -/
theorem evolves_evictAll {victims : List Hash} (fin : UInt64) (hnodup : victims.Nodup)
    (h : ∀ hash ∈ victims, Evictable s now.ms st.grace (batch.map Approval.txHash) hash) :
    Evolves (Moves st s.firstStatus fin (.putBatch batch now)) s (victims.foldl st.evict s) := by
  induction victims generalizing s with
  | nil => exact .refl s
  | cons hash rest ih =>
    rw [nodup_cons] at hnodup
    obtain ⟨hedit, hmove⟩ := evolves_evict fin (h hash mem_cons_self)
    rw [foldl_cons]
    refine .step hedit hmove ?_
    rw [← hedit.firstStatus]
    apply ih hnodup.2
    intro hash' hmem
    have hne : hash' ≠ hash := by
      rintro rfl
      exact hnodup.1 hmem
    obtain ⟨hunnamed, e, a, hentry, hrest⟩ := h hash' (mem_cons_of_mem hash hmem)
    exact ⟨hunnamed, e, a, (hedit.frame hash' hne).trans hentry, hrest⟩

theorem evolves_put {a : Approval} (first : Option Instant) (fin : UInt64) (now : Now)
    (hmem : a ∈ batch) :
    Evolves (Moves st first fin (.putBatch batch now)) s (put s a now) := by
  unfold put
  cases hentry : s.entry a.txHash with
  | none =>
    refine .one (edits_insert _ hentry) ?_
    rw [hentry, entry_insert]
    exact .stored hmem
  | some e =>
    by_cases hkeeps : (e.approval.any fun old => decide (rank a ≤ rank old)) = true
    · simp only [hkeeps, if_true]
      exact .refl s
    · simp only [hkeeps, Bool.false_eq_true, if_false]
      refine .one (edits_modify _) ?_
      rw [entry_modify, hentry]
      refine .replaced hmem ?_ ?_
      · intro old hold
        simp only [hold, Option.any_some, decide_eq_true_eq, not_le] at hkeeps
        exact hkeeps
      · split
        · exact min_le_left _ _
        · exact le_refl _

theorem victims_evictable (h : Indexed s) {needed : Nat} {now grace : UInt64} {keep : List Hash}
    (hmem : hash ∈ s.victims needed now grace keep) : Evictable s now grace keep hash := by
  rw [victims_eq h] at hmem
  exact (mem_candidates h).mp (mem_of_mem_take hmem)

theorem nodup_victims (h : Indexed s) (needed : Nat) (now grace : UInt64) (keep : List Hash) :
    (s.victims needed now grace keep).Nodup := by
  rw [victims_eq h]
  exact (nodup_candidates h).sublist (take_sublist _ _)

theorem evolves_victims (st : Store) (hs : Indexed s) (needed : Nat) (batch : List Approval)
    (now : Now)
    (fin : UInt64) :
    Evolves (Moves st s.firstStatus fin (.putBatch batch now)) s
      ((s.victims needed now.ms st.grace (batch.map Approval.txHash)).foldl st.evict s) :=
  evolves_evictAll fin (nodup_victims hs needed now.ms st.grace _) fun _ hmem =>
    victims_evictable hs hmem

theorem evolves_putBatch (hs : Indexed s) (batch : List Approval) (now : Now) :
    Evolves (Moves st s.firstStatus s.finalized (.putBatch batch now)) s
      (st.putBatch s batch now).2 := by
  have hputs : ∀ s₁, Indexed s₁ →
      Evolves (Moves st s.firstStatus s.finalized (.putBatch batch now)) s₁
        (batch.foldl (fun s a => put s a now) s₁) := by
    intro s₁ hs₁
    apply Evolves.foldl _ hs₁
    intro s' _ _ _ a hmem
    exact evolves_put _ _ now hmem
  unfold Store.putBatch
  simp only
  split
  · split
    · exact .refl s
    · have hevicts := evolves_victims st hs
        ((fresh s (batch.map Approval.txHash)).length - (st.capacity - s.approvals))
        batch now s.finalized
      exact hevicts.trans (hputs _ (hevicts.indexed hs))
  · exact hputs s hs

/-- The state in which the calls make their changes: `statusSeen` and `finalized` note
their argument first. -/
def Op.base (s : State) : Op → State
  | .statusSeen now =>
      if s.firstStatus.isSome then s else { s with firstStatus := some now.instant }
  | .finalized block => { s with finalized := max s.finalized block }
  | _ => s

@[simp] theorem entry_base (s : State) (op : Op) (hash : Hash) :
    (op.base s).entry hash = s.entry hash := by
  cases op with
  | statusSeen now => simp only [Op.base]; split <;> rfl
  | _ => rfl

theorem indexed_base {s : State} (hs : Indexed s) (op : Op) : Indexed (op.base s) := by
  cases op with
  | statusSeen now =>
    simp only [Op.base]
    split
    · exact hs
    · exact { hs with }
  | finalized block => exact { hs with }
  | _ => exact hs

def Store.setWindow (st : Store) (s : State) (p : Hash × Instant) : State :=
  s.modify p.1 fun e => { e with deadline := st.waitEnd s.firstStatus p.2 }

/-- The transaction waits for an approval since its admission. -/
def Waits (s : State) (p : Hash × Instant) : Prop :=
  ∃ e, s.entry p.1 = some e ∧ e.approval = none ∧ e.pooled = some p.2

theorem mem_waiting {p : Hash × Instant} : p ∈ waiting s ↔ Waits s p := by
  obtain ⟨hash, arrived⟩ := p
  simp only [waiting, mem_filterMap]
  constructor
  · rintro ⟨⟨hash', e⟩, hmem, hp⟩
    split at hp
    · rename_i hnone
      simp only [Option.map_eq_some_iff, Prod.mk.injEq] at hp
      obtain ⟨t, ht, rfl, rfl⟩ := hp
      exact ⟨e, AList.mem_lookup_iff.mpr hmem, Option.isNone_iff_eq_none.mp hnone, ht⟩
    · cases hp
  · rintro ⟨e, hentry, happroval, hpooled⟩
    refine ⟨⟨hash, e⟩, AList.mem_lookup_iff.mp hentry, ?_⟩
    have hpooled' : e.pooled = some arrived := hpooled
    simp [happroval, hpooled']

theorem waits_setWindow {p q : Hash × Instant} (h : Waits s p) : Waits (st.setWindow s q) p := by
  obtain ⟨e, hentry, happroval, hpooled⟩ := h
  by_cases hsame : p.1 = q.1
  · refine ⟨{ e with deadline := st.waitEnd s.firstStatus q.2 }, ?_, happroval, hpooled⟩
    rw [setWindow, hsame, entry_modify, ← hsame, hentry]
    rfl
  · refine ⟨e, ?_, happroval, hpooled⟩
    rw [setWindow, (edits_modify _).frame p.1 hsame, hentry]

theorem evolves_setWindows (fin : UInt64) {ps : List (Hash × Instant)} (h : ∀ p ∈ ps, Waits s p) :
    Evolves (Moves st s.firstStatus fin (.statusSeen now)) s (ps.foldl st.setWindow s) := by
  induction ps generalizing s with
  | nil => exact .refl s
  | cons p ps ih =>
    have hedit : Edits s (st.setWindow s p) p.1 := edits_modify _
    obtain ⟨e, hentry, happroval, hpooled⟩ := h p mem_cons_self
    rw [foldl_cons]
    refine .step hedit ?_ ?_
    · rw [setWindow, entry_modify, hentry]
      exact .windowed happroval hpooled
    · rw [← hedit.firstStatus]
      apply ih
      intro q hq
      exact waits_setWindow (h q (mem_cons_of_mem p hq))

theorem evolves_statusSeen (st : Store) (s : State) (now : Now) :
    Evolves (Moves st ((Op.statusSeen now).base s).firstStatus s.finalized (.statusSeen now))
      ((Op.statusSeen now).base s) (st.statusSeen s now) := by
  by_cases hseen : s.firstStatus.isSome
  · simp only [Store.statusSeen, Op.base, hseen, if_true]
    exact .refl s
  · simp only [Store.statusSeen, Op.base, hseen]
    apply evolves_setWindows
    intro p hp
    exact mem_waiting.mp hp

theorem evolves_included (hs : Indexed s) (block : UInt64) (hashes : List Hash) (now : Now) :
    Evolves (Moves st s.firstStatus s.finalized (.included block hashes now)) s
      (Store.included s block hashes now) := by
  apply Evolves.foldl _ hs
  intro s' _ hfin _ hash hmem
  unfold includeOne
  cases hentry : s'.entry hash with
  | none => exact .refl s'
  | some e =>
    cases happroval : e.approval with
    | none =>
      simp only [happroval]
      refine .one edits_remove ?_
      rw [hentry, entry_remove]
      exact .minedElsewhere hmem happroval
    | some a =>
      simp only [happroval]
      split
      · rename_i hfinal
        refine .one edits_remove ?_
        rw [hentry, entry_remove]
        exact .minedFinal hmem happroval (hfin ▸ hfinal)
      · rename_i hfinal
        refine .one (edits_modify _) ?_
        rw [entry_modify, hentry]
        exact .mined hmem happroval (hfin ▸ hfinal)

theorem evolves_reverted (hs : Indexed s) (block : UInt64) (hashes : List Hash) :
    Evolves (Moves st s.firstStatus s.finalized (.reverted block hashes)) s
      (Store.reverted s block hashes) := by
  apply Evolves.foldl _ hs
  intro s' _ _ _ hash hmem
  unfold revertOne
  split
  · rename_i hblock
    obtain ⟨e, hentry, hincluded⟩ := Option.bind_eq_some_iff.mp hblock
    refine .one (edits_modify _) ?_
    rw [entry_modify, hentry]
    exact .unmined hmem hincluded
  · exact .refl s'

theorem first_included (hs : Indexed s) {key : Nat ×ₗ Hash} (hfirst : s.included.first = some key) :
    ∃ e a b, s.entry (ofLex key).2 = some e ∧ e.approval = some a ∧ e.included = some b ∧
      b.toNat = (ofLex key).1 := by
  obtain ⟨hash, e, hentry, hkey⟩ := (hs.included key).mp (OrdSet.first_eq_some.mp hfirst).1
  obtain ⟨a, b, ha, hb, rfl⟩ := includedKey_eq_some.mp hkey
  exact ⟨e, a, b, hentry, ha, hb, rfl⟩

theorem evolves_release (hs : Indexed s) (block : UInt64) (turns : Nat) :
    Evolves (Moves st s.firstStatus s.finalized (.finalized block)) s (release turns s) := by
  induction turns generalizing s with
  | zero => exact .refl s
  | succ turns ih =>
    unfold release
    split
    · exact .refl s
    · rename_i key hfirst
      split
      · exact .refl s
      · rename_i hle
        obtain ⟨e, a, b, hentry, happroval, hincluded, hb⟩ := first_included hs hfirst
        have hedit : Edits s (s.remove (ofLex key).2) (ofLex key).2 := edits_remove
        refine .step hedit ?_ ?_
        · rw [hentry, entry_remove]
          refine .released happroval hincluded ?_
          rw [UInt64.le_iff_toNat_le]
          omega
        · have hrest := ih (hedit.indexed hs)
          rw [hedit.firstStatus, hedit.finalized] at hrest
          exact hrest

theorem evolves_finalized (hs : Indexed s) (block : UInt64) :
    Evolves (Moves st s.firstStatus ((Op.finalized block).base s).finalized (.finalized block))
      ((Op.finalized block).base s) (Store.finalized s block) :=
  evolves_release (indexed_base hs (.finalized block)) block _

theorem size_included_remove (hs : Indexed s) {key : Nat ×ₗ Hash}
    (hfirst : s.included.first = some key) :
    (s.remove (ofLex key).2).included.size + 1 = s.included.size := by
  obtain ⟨hash, e, (hentry : s.entry hash = some e), hkey⟩ :=
    (hs.included key).mp (OrdSet.first_eq_some.mp hfirst).1
  obtain rfl : hash = (ofLex key).2 := by
    obtain ⟨a, b, -, -, rfl⟩ := includedKey_eq_some.mp hkey
    rfl
  have hdropped : (s.remove (ofLex key).2).included = s.included.erase key := by
    simp only [State.remove, entry_index, hentry]
    rw [index_false_eq hentry, hkey]
    rfl
  rw [hdropped]
  exact OrdSet.size_erase (OrdSet.first_eq_some.mp hfirst).1

/-- As many turns as there are keys come to the end of the loop. -/
theorem release_ends (hs : Indexed s) {turns : Nat} (hturns : s.included.size ≤ turns) :
    ∀ key ∈ (release turns s).included, s.finalized.toNat < (ofLex key).1 := by
  induction turns generalizing s with
  | zero =>
    intro key hkey
    have hempty : s.included.toList = [] := List.eq_nil_of_length_eq_zero (Nat.le_zero.mp hturns)
    exact absurd (hempty ▸ OrdSet.mem_toList.mpr hkey) List.not_mem_nil
  | succ turns ih =>
    unfold release
    split
    · rename_i hnone
      intro key hkey
      exact absurd hkey (OrdSet.first_eq_none.mp hnone key)
    · rename_i first hfirst
      split
      · rename_i hlater
        intro key hkey
        have hle := Prod.Lex.monotone_fst _ _ ((OrdSet.first_eq_some.mp hfirst).2 key hkey)
        exact hlater.trans_le hle
      · have hedit : Edits s (s.remove (ofLex first).2) (ofLex first).2 := edits_remove
        have hsize := size_included_remove hs hfirst
        rw [← hedit.finalized]
        exact ih (hedit.indexed hs) (by omega)

/-- Behind `finalized`, what holds an approval is included in a block that is not final. -/
theorem not_final_of_finalized (hs : Indexed s) (block : UInt64) {hash : Hash} {e : Entry}
    {a : Approval} {b : UInt64} (hentry : (Store.finalized s block).entry hash = some e)
    (ha : e.approval = some a) (hb : e.included = some b) : max s.finalized block < b := by
  have hs' : Indexed (Store.finalized s block) :=
    (@evolves_finalized ⟨0, 0, 0⟩ s hs block).indexed (indexed_base hs (.finalized block))
  have hkey : toLex (b.toNat, hash) ∈ (Store.finalized s block).included :=
    (hs'.included _).mpr ⟨hash, e, hentry, includedKey_eq_some.mpr ⟨a, b, ha, hb, rfl⟩⟩
  have hlater := release_ends (indexed_base hs (.finalized block)) le_rfl _ hkey
  exact UInt64.lt_iff_toNat_lt.mpr hlater

/-- The wait of an entry's pooled transaction is over, and no valid approval ends it. -/
def WaitOver (st : Store) (first : Option Instant) (now : Now) (e : Entry) : Prop :=
  ∃ arrived, e.pooled = some arrived ∧ (∀ a, e.approval = some a → a.expiresAt ≤ now.ms) ∧
    st.waitEnd first arrived ≤ now.instant

/-- A turn of `sweep`: one of the changes to the entry of a hash, which gets a timer in the
future if it stays, and drops only what has waited its time. -/
structure Turns (st : Store) (s : State) (now : Now) (limit : Nat) (inPool : Hash → Bool)
    (hash : Hash) (e : Entry) (turn : State × Option Hash) : Prop where
  edits : Edits s turn.1 hash
  moves : Moves st s.firstStatus s.finalized (.sweep now limit inPool) hash (some e)
    (turn.1.entry hash)
  later : ∀ e', turn.1.entry hash = some e' → now.instant < e'.deadline
  drops : ∀ hash' ∈ turn.2, hash' = hash ∧ WaitOver st s.firstStatus now e

section Turns

variable {limit : Nat} {inPool : Hash → Bool} {e : Entry} {change : Entry → Entry}

theorem turns_remove {drop : Option Hash}
    (hmove : Moves st s.firstStatus s.finalized (.sweep now limit inPool) hash (some e) none)
    (hdrop : ∀ hash' ∈ drop, hash' = hash ∧ WaitOver st s.firstStatus now e) :
    Turns st s now limit inPool hash e (s.remove hash, drop) := by
  refine ⟨edits_remove, ?_, ?_, hdrop⟩
  · rw [entry_remove]
    exact hmove
  · rw [entry_remove]
    nofun

theorem turns_modify (hentry : s.entry hash = some e)
    (hmove : Moves st s.firstStatus s.finalized (.sweep now limit inPool) hash (some e)
      (some (change e))) (hlater : now.instant < (change e).deadline) :
    Turns st s now limit inPool hash e (s.modify hash change, none) := by
  refine ⟨edits_modify _, ?_, ?_, nofun⟩
  · rw [entry_modify, hentry]
    exact hmove
  · rw [entry_modify, hentry]
    rintro e' ⟨⟩
    exact hlater

/-- Without a valid approval a pooled transaction is dropped, or waits on. -/
theorem turns_wait {arrived : Instant} (hentry : s.entry hash = some e)
    (hpooled : e.pooled = some arrived) (hgone : ∀ a, e.approval = some a → a.expiresAt ≤ now.ms)
    (hchange : change e =
      { e with approval := none, deadline := st.waitEnd s.firstStatus arrived }) :
    Turns st s now limit inPool hash e
      (if st.waitEnd s.firstStatus arrived ≤ now.instant then (s.remove hash, some hash)
        else (s.modify hash change, none)) := by
  split
  · rename_i hover
    refine turns_remove (.timedOut hpooled hgone hover) ?_
    rintro hash' ⟨⟩
    exact ⟨rfl, arrived, hpooled, hgone, hover⟩
  · rename_i hover
    apply turns_modify hentry
    · rw [hchange]
      exact .waits hpooled hgone
    · rw [hchange]
      exact Nat.lt_of_not_le hover

end Turns

theorem due_spec (st : Store) (hs : Indexed s) {timer : Nat ×ₗ Nat ×ₗ Hash}
    (hmem : timer ∈ s.deadlines)
    (now : Now) (limit : Nat) (inPool : Hash → Bool) :
    ∃ hash e, timerOf e hash = timer ∧ s.entry hash = some e ∧
      Turns st s now limit inPool hash e (st.due s now inPool timer) := by
  obtain ⟨hash, e, hlookup, hkey⟩ := (hs.timers timer).mp hmem
  have hentry : s.entry hash = some e := hlookup
  obtain rfl : timerOf e hash = timer := Option.some.inj hkey
  refine ⟨hash, e, rfl, hentry, ?_⟩
  unfold due
  simp only [timerOf_hash, hentry]
  cases happroval : e.approval with
  | none =>
    have hvacuous : ∀ a, e.approval = some a → a.expiresAt ≤ now.ms := by simp [happroval]
    cases hpooled : e.pooled with
    | none => exact turns_remove (.forgotten hpooled hvacuous) nofun
    | some arrived => exact turns_wait hentry hpooled hvacuous (by rw [← happroval])
  | some a =>
    by_cases hexpired : a.expiresAt ≤ now.ms
    · have hgone : ∀ a', e.approval = some a' → a'.expiresAt ≤ now.ms := by
        intro a' ha'
        rw [happroval, Option.some.injEq] at ha'
        exact ha' ▸ hexpired
      simp only [hexpired, if_true]
      cases hpooled : e.pooled with
      | none => exact turns_remove (.forgotten hpooled hgone) nofun
      | some arrived => exact turns_wait hentry hpooled hgone rfl
    · have hlive : now.ms < a.expiresAt := UInt64.not_le.mp hexpired
      have hlater : now.instant < now.instantOf a.expiresAt := by
        rw [UInt64.lt_iff_toNat_lt] at hlive
        unfold Now.instantOf fromMillis Instant
        omega
      simp only [hexpired, if_false]
      by_cases hwatched : e.pooled.isSome ∧ e.included.isNone
      · simp only [hwatched, and_self, if_true]
        by_cases hin : inPool hash = true
        · simp only [hin, if_true]
          exact turns_modify hentry (.rested happroval hlive (min_le_left _ _))
            (lt_min hlater (Nat.lt_add_of_pos_right (by decide)))
        · simp only [hin]
          exact turns_modify hentry (.leaves happroval hlive
            (Option.isNone_iff_eq_none.mp hwatched.2) (Bool.eq_false_of_not_eq_true hin)) hlater
      · simp only [hwatched, if_false]
        exact turns_modify hentry (.rested happroval hlive (le_refl _)) hlater

/-- Seen from behind a change of a sweep: a wait that is over was over before. -/
theorem Moves.waitOver_before {first : Option Instant} {fin : UInt64} {limit : Nat}
    {inPool : Hash → Bool} {e e' : Entry}
    (h : Moves st first fin (.sweep now limit inPool) hash (some e) (some e'))
    (hover : WaitOver st first now e') : WaitOver st first now e ∧ e.included = e'.included := by
  obtain ⟨arrived, hpooled', happroval', hend⟩ := hover
  cases h with
  | waits hpooled happroval =>
    rw [hpooled] at hpooled'
    exact ⟨⟨arrived, hpooled.trans hpooled', happroval, hend⟩, rfl⟩
  | rested happroval hlive _ =>
    exact absurd (happroval' _ happroval) (UInt64.not_le.mpr hlive)
  | leaves => cases hpooled'

theorem evolves_sweepLoop (st : Store) (hs : Indexed s) (now : Now) (inPool : Hash → Bool)
    (limit turns : Nat)
    (dropped : List Hash) :
    Evolves (Moves st s.firstStatus s.finalized (.sweep now limit inPool)) s
        (st.sweepLoop now inPool turns s dropped).1 ∧
      ∀ hash ∈ (st.sweepLoop now inPool turns s dropped).2, hash ∈ dropped ∨
        ∃ e, s.entry hash = some e ∧ WaitOver st s.firstStatus now e := by
  induction turns generalizing s dropped with
  | zero => exact ⟨.refl s, fun _ h => .inl h⟩
  | succ turns ih =>
    unfold sweepLoop
    split
    · exact ⟨.refl s, fun _ h => .inl h⟩
    · rename_i timer hfirst
      split
      · exact ⟨.refl s, fun _ h => .inl h⟩
      · obtain ⟨hash, e, -, hentry, hedit, hmove, -, hdrop⟩ :=
          due_spec st hs (OrdSet.first_eq_some.mp hfirst).1 now limit inPool
        obtain ⟨hrest, hdropped⟩ := ih (hedit.indexed hs)
          (dropped ++ (st.due s now inPool timer).2.toList)
        rw [hedit.firstStatus, hedit.finalized] at hrest
        rw [hedit.firstStatus] at hdropped
        refine ⟨.step hedit (hentry ▸ hmove) hrest, ?_⟩
        intro hash' hmem
        rcases hdropped hash' hmem with hmem' | ⟨e', hentry', hover⟩
        · rcases mem_append.mp hmem' with hold | hnew
          · exact .inl hold
          · obtain ⟨rfl, hover⟩ := hdrop hash' (Option.mem_toList.mp hnew)
            exact .inr ⟨e, hentry, hover⟩
        · by_cases hsame : hash' = hash
          · subst hsame
            rw [hentry'] at hmove
            exact .inr ⟨e, hentry, (hmove.waitOver_before hover).1⟩
          · exact .inr ⟨e', (hedit.frame hash' hsame).symm.trans hentry', hover⟩

/-- Every call is a sequence of changes to single entries. -/
theorem evolves_apply (st : Store) (hs : Indexed s) (op : Op) :
    Evolves (Moves st (op.base s).firstStatus (op.base s).finalized op) (op.base s)
      (st.apply s op) := by
  cases op with
  | seenAt hash arrived now => exact evolves_seenAt hash arrived now
  | putBatch batch now => exact evolves_putBatch hs batch now
  | statusSeen now =>
    have h := evolves_statusSeen st s now
    have hfin : ((Op.statusSeen now).base s).finalized = s.finalized := by
      simp only [Op.base]
      split <;> rfl
    rw [hfin]
    exact h
  | included block hashes now => exact evolves_included hs block hashes now
  | reverted block hashes => exact evolves_reverted hs block hashes
  | finalized block => exact evolves_finalized hs block
  | sweep now limit inPool => exact (evolves_sweepLoop st hs now inPool limit limit []).1

end Calls

/-! ## Runs -/

section Runs

variable (st : Store)

variable {s : State}

theorem indexed_apply (hs : Indexed s) (op : Op) : Indexed (st.apply s op) :=
  (evolves_apply st hs op).indexed (indexed_base hs op)

theorem indexed_run (ops : List Op) : Indexed (st.run ops) := by
  induction ops using List.reverseRecOn with
  | nil => exact indexed_init
  | append_singleton ops op ih =>
    rw [run_concat]
    exact indexed_apply st ih op

theorem entry_apply (hs : Indexed s) (op : Op) (hash : Hash) :
    Relation.ReflTransGen (Moves st (op.base s).firstStatus (op.base s).finalized op hash)
      (s.entry hash) ((st.apply s op).entry hash) := by
  have h := (evolves_apply st hs op).entry hash
  rw [entry_base] at h
  exact h

/-- What holds of an entry before a call and is kept by each change holds behind it. -/
theorem apply_induction (hs : Indexed s) {op : Op} {hash : Hash} (P : Option Entry → Prop)
    (hbefore : P (s.entry hash))
    (hstep : ∀ x y, Moves st (op.base s).firstStatus (op.base s).finalized op hash x y →
      P x → P y) :
    P ((st.apply s op).entry hash) := by
  have h := entry_apply st hs op hash
  generalize (st.apply s op).entry hash = after at h
  induction h with
  | refl => exact hbefore
  | tail _ hmove ih => exact hstep _ _ hmove ih

/-- What is true of an entry behind a call was true of it before, or comes from a change that
makes it true. -/
theorem entry_traced_or (hs : Indexed s) {op : Op} {hash : Hash} (P : Entry → Prop) {made : Prop}
    (hstep : ∀ x e, Moves st (op.base s).firstStatus (op.base s).finalized op hash x (some e) →
      P e → (∃ e₀, x = some e₀ ∧ P e₀) ∨ made) {e : Entry}
    (he : (st.apply s op).entry hash = some e) (h : P e) :
    (∃ e₀, s.entry hash = some e₀ ∧ P e₀) ∨ made := by
  refine apply_induction st hs (fun x => ∀ e, x = some e → P e →
    (∃ e₀, s.entry hash = some e₀ ∧ P e₀) ∨ made) (fun e he h => .inl ⟨e, he, h⟩) ?_ e he h
  rintro x _ hmove ih e rfl h
  rcases hstep x e hmove h with ⟨e₀, he₀, h₀⟩ | hmade
  · exact ih e₀ he₀ h₀
  · exact .inr hmade

theorem entry_traced (hs : Indexed s) {op : Op} {hash : Hash} (P : Entry → Prop)
    (hstep : ∀ x e, Moves st (op.base s).firstStatus (op.base s).finalized op hash x (some e) →
      P e → ∃ e₀, x = some e₀ ∧ P e₀) {e : Entry} (he : (st.apply s op).entry hash = some e)
    (h : P e) : ∃ e₀, s.entry hash = some e₀ ∧ P e₀ :=
  (entry_traced_or st hs P (fun x e hmove h => .inl (hstep x e hmove h)) he h).resolve_right id

end Runs

end PrivacySuite.Reth.Approvals
