import PrivacySuite.Besu.ApprovalAdmission

/-!
# Runs of the Besu store

After every sequence of calls the indexes, the pooled states and the size are as they
should be. When the batches have passed the ingress, `putAll` refuses exactly what there is
no room for, and evicts nothing that is pooled or young and still valid.
-/

namespace PrivacySuite.Besu.ApprovalStore

open Codec NodeApproval Data List

/-- A call of the store, with what the clock reads during it. -/
inductive Op where
  | putAll (now : Int64) (keyId : List Char) (issuedAt expiresAt : Int64)
      (approvals : List Approval)
  | pooled (tx : Hash) (now : Int64)
  | unpooled (tx : Hash) (now : Int64)
  | included (tx : Hash) (now : Int64)
  | removeAll (txs : List Hash)
  | evictExpired (now : Int64)
  | reconcile (poolSnapshot : List Hash) (takenAt : Int64) (clock : Hash → Int64)

def Store.apply (st : Store) (s : State) : Op → State
  | .putAll now keyId issuedAt expiresAt approvals =>
      (st.putAll s now keyId issuedAt expiresAt approvals).2
  | .pooled tx now => ApprovalStore.pooled s tx now
  | .unpooled tx now => ApprovalStore.unpooled s tx now
  | .included tx now => ApprovalStore.included s tx now
  | .removeAll txs => ApprovalStore.removeAll s txs
  | .evictExpired now => (ApprovalStore.evictExpired s now).1
  | .reconcile poolSnapshot takenAt clock => ApprovalStore.reconcile s poolSnapshot takenAt clock

def Store.run (st : Store) (ops : List Op) : State := ops.foldl st.apply State.init

theorem Store.run_concat (st : Store) (ops : List Op) (op : Op) :
    st.run (ops ++ [op]) = st.apply (st.run ops) op := by
  rw [Store.run, foldl_append]
  rfl

/-! ## Consistency -/

section Steps

variable {st : Store} {s : State}

theorem follows_apply (st : Store) (s : State) (op : Op)
    (hop : ∀ now keyId issuedAt expiresAt approvals,
      op ≠ .putAll now keyId issuedAt expiresAt approvals) : Follows s (st.apply s op) := by
  cases op with
  | putAll now keyId issuedAt expiresAt approvals => exact absurd rfl (hop _ _ _ _ _)
  | pooled tx now => exact follows_pooled s tx now
  | unpooled tx now => exact follows_unpooled s tx now
  | included tx now => exact follows_included s tx now
  | removeAll txs => exact follows_removeAll s txs
  | evictExpired now => exact follows_evictLoop now _ s 0
  | reconcile poolSnapshot takenAt clock => exact follows_reconcile s poolSnapshot takenAt clock

theorem Follows.entry {s' : State} {tx : Hash} {e' : Entry} (h : Follows s s')
    (he' : s'.entry tx = some e') : ∃ e, s.entry tx = some e ∧ e.stored = e'.stored := by
  have hget : get s' tx = some e'.stored := by rw [get, he', Option.map_some]
  rcases h.stored tx with hsame | hnone
  · rwa [hsame, get, Option.map_eq_some_iff] at hget
  · rw [hnone] at hget
    cases hget

theorem Follows.size_le {s' : State} (h : Follows s s') :
    s'.entries.entries.length ≤ s.entries.entries.length := by
  rw [← card_held, ← card_held]
  apply Finset.card_le_card
  intro tx hmem
  obtain ⟨e', he'⟩ := mem_held.mp hmem
  obtain ⟨e, he, -⟩ := h.entry he'
  exact mem_held.mpr ⟨e, he⟩

theorem consistent_apply (h : Consistent s) (hcap : s.entries.entries.length ≤ st.capacity)
    (op : Op) :
    Consistent (st.apply s op) ∧ (st.apply s op).entries.entries.length ≤ st.capacity := by
  by_cases hop : ∃ now keyId issuedAt expiresAt approvals,
      op = .putAll now keyId issuedAt expiresAt approvals
  · obtain ⟨now, keyId, issuedAt, expiresAt, approvals, rfl⟩ := hop
    exact ⟨consistent_putAll h hcap, capacity_putAll h hcap⟩
  · have hfollows : Follows s (st.apply s op) :=
      follows_apply st s op fun _ _ _ _ _ heq => hop ⟨_, _, _, _, _, heq⟩
    exact ⟨hfollows.consistent h, hfollows.size_le.trans hcap⟩

theorem consistent_run (st : Store) (ops : List Op) :
    Consistent (st.run ops) ∧ (st.run ops).entries.entries.length ≤ st.capacity := by
  induction ops using List.reverseRecOn with
  | nil => exact ⟨consistent_init, Nat.zero_le _⟩
  | append_singleton ops op ih =>
    rw [Store.run_concat]
    exact consistent_apply ih.1 ih.2 op

end Steps

/-! ## The checks of the ingress -/

/-- `MAX_ISSUED_AHEAD_MS`. -/
def maxIssuedAheadMs : Int64 := 5000

/-- The ingress passes a batch on only when it is not issued further ahead of its clock,
which reads the milliseconds since the epoch. -/
def Op.Checked : Op → Prop
  | .putAll _ _ issuedAt _ _ => ∃ clock : Int64, 0 ≤ clock.toInt ∧
      clock.toInt + maxIssuedAheadMs.toInt < 2 ^ 63 ∧
      ¬ (clock + maxIssuedAheadMs).toUInt64 < issuedAt.toUInt64
  | _ => True

theorem toInt_eq_toNat_cond (x : Int64) : x.toInt =
    if 2 * x.toUInt64.toNat < 2 ^ 64 then (x.toUInt64.toNat : Int)
    else (x.toUInt64.toNat : Int) - (2 ^ 64 : Nat) := by
  rw [← Int64.toInt_toBitVec, BitVec.toInt_eq_toNat_cond, Int64.toNat_toBitVec]

theorem toInt_nonneg_of_toUInt64_le {x y : Int64} (hy : 0 ≤ y.toInt)
    (h : x.toUInt64 ≤ y.toUInt64) : 0 ≤ x.toInt := by
  rw [UInt64.le_iff_toNat_le] at h
  have hbound := y.toUInt64.toNat_lt
  rw [toInt_eq_toNat_cond] at hy ⊢
  split at hy <;> split <;> omega

/-- A batch that passed the ingress was not issued before the epoch. -/
theorem issued_nonneg {now : Int64} {keyId : List Char} {issuedAt expiresAt : Int64}
    {approvals : List Approval} (h : (Op.putAll now keyId issuedAt expiresAt approvals).Checked) :
    0 ≤ issuedAt.toInt := by
  obtain ⟨clock, hclock, hbound, hle⟩ := h
  have hskew : maxIssuedAheadMs.toInt = 5000 := by decide
  apply toInt_nonneg_of_toUInt64_le _ (UInt64.not_lt.mp hle)
  rw [Int64.toInt_add, Int.bmod_eq_of_le (by omega) (by omega)]
  omega

theorem offers_issuedAt {keyId : List Char} {issuedAt expiresAt : Int64}
    {approvals : List Approval} {tx : Hash} {x : Stored}
    (h : offerOf (offers keyId issuedAt expiresAt approvals) tx = some x) :
    ∃ a ∈ approvals, x = ⟨a, keyId, issuedAt, expiresAt⟩ := by
  rw [offerOf_offers] at h
  rcases (foldl_keepBest h).1 with hmem | hnone
  · obtain ⟨a, ha, rfl⟩ := mem_map.mp (mem_of_mem_filter hmem)
    exact ⟨a, ha, rfl⟩
  · cases hnone

section Dates

variable {st : Store} {s : State}

theorem Follows.dated {s' : State} (h : Follows s s') (hdated : Dated s) : Dated s' := by
  intro tx e' he'
  obtain ⟨e, he, hstored⟩ := h.entry he'
  rw [← hstored]
  exact hdated tx e he

theorem dated_putAll (h : Indexed s) (hcap : s.entries.entries.length ≤ st.capacity)
    (hdated : Dated s) {now : Int64} {keyId : List Char} {issuedAt expiresAt : Int64}
    {approvals : List Approval} (hissued : 0 ≤ issuedAt.toInt) :
    Dated (st.putAll s now keyId issuedAt expiresAt approvals).2 := by
  cases hanswer : (st.putAll s now keyId issuedAt expiresAt approvals).1 with
  | false =>
    rw [putAll_refused h hcap hanswer]
    exact hdated
  | true =>
    intro tx e he
    rw [entry_putAll h hcap hanswer] at he
    split at he
    · cases he
    · split at he
      · rename_i x hchange
        obtain rfl := Option.some.inj he
        rw [offerOf_changes (nodup_offers keyId issuedAt expiresAt approvals),
          Option.filter_eq_some_iff] at hchange
        obtain ⟨a, -, rfl⟩ := offers_issuedAt hchange.1
        exact hissued
      · exact hdated tx e he

theorem dated_run (st : Store) (ops : List Op) (h : ∀ op ∈ ops, op.Checked) :
    Dated (st.run ops) := by
  induction ops using List.reverseRecOn with
  | nil =>
    intro tx e he
    cases he
  | append_singleton ops op ih =>
    have hbefore := ih fun op hop => h op (mem_append_left _ hop)
    have hop := h op (mem_append_right _ mem_cons_self)
    obtain ⟨hs, hcap⟩ := consistent_run st ops
    rw [Store.run_concat]
    cases op with
    | putAll now keyId issuedAt expiresAt approvals =>
      exact dated_putAll hs.indexed hcap hbefore (issued_nonneg hop)
    | _ => exact (follows_apply st _ _ (by intro _ _ _ _ _ hop; cases hop)).dated hbefore

end Dates

/-! ## Capacity and eviction -/

section Eviction

variable {st : Store} {s : State} {now : Int64}

theorem ncard_evictable (h : Indexed s) (hdated : Dated s) (hnow : 0 ≤ now.toInt)
    {keep named : List Hash} (hnamed : ∀ tx, tx ∈ keep ↔ tx ∈ named) (graceMs : Int64) :
    {tx | Evictable s now graceMs named tx}.ncard = (s.candidates now graceMs keep).length := by
  have hset : {tx | Evictable s now graceMs named tx} =
      ((s.candidates now graceMs keep).toFinset : Set Hash) := by
    ext tx
    rw [Finset.mem_coe, mem_toFinset, mem_candidates h hdated hnow]
    show Evictable s now graceMs named tx ↔ _
    rw [Evictable, Evictable, hnamed]
  rw [hset, Set.ncard_coe_finset, toFinset_card_of_nodup (nodup_candidates h)]

theorem ncard_missing (s : State) (named : List Hash) :
    {tx | tx ∈ named ∧ s.entry tx = none}.ncard = (named.toFinset \ s.held).card := by
  rw [← Set.ncard_coe_finset]
  congr 1
  ext tx
  rw [Finset.mem_coe, Finset.mem_sdiff, mem_toFinset, mem_held, ← Option.ne_none_iff_exists',
    Ne, not_not]
  rfl

theorem putAll_eq_false_iff (h : Consistent s) (hcap : s.entries.entries.length ≤ st.capacity)
    (hdated : Dated s) (hnow : 0 ≤ now.toInt) (keyId : List Char) (issuedAt expiresAt : Int64)
    (approvals : List Approval) :
    (st.putAll s now keyId issuedAt expiresAt approvals).1 = false ↔
      st.capacity - s.entries.entries.length +
          {tx | Evictable s now st.graceMs (approvals.map Approval.txHash) tx}.ncard <
        {tx | tx ∈ approvals.map Approval.txHash ∧ s.entry tx = none}.ncard := by
  rw [putAll_eq h.indexed hcap, ncard_missing, ncard_evictable h.indexed hdated hnow
    (fun tx => mem_offers_tx keyId issuedAt expiresAt approvals) st.graceMs]
  split
  · rename_i hfew
    exact iff_of_true rfl (by omega)
  · rename_i henough
    exact iff_of_false nofun (by omega)

/-- What an accepted batch evicts is not named and has expired, or is neither pooled nor
young. -/
theorem putAll_evicts (h : Consistent s) (hcap : s.entries.entries.length ≤ st.capacity)
    (hdated : Dated s) (hnow : 0 ≤ now.toInt) {keyId : List Char} {issuedAt expiresAt : Int64}
    {approvals : List Approval}
    (hok : (st.putAll s now keyId issuedAt expiresAt approvals).1 = true) {tx : Hash} {e : Entry}
    (he : s.entry tx = some e)
    (hgone : (st.putAll s now keyId issuedAt expiresAt approvals).2.entry tx = none) :
    Evictable s now st.graceMs (approvals.map Approval.txHash) tx := by
  rw [entry_putAll h.indexed hcap hok] at hgone
  split at hgone
  · rename_i hmem
    have hevictable := (mem_candidates h.indexed hdated hnow).mp (mem_of_mem_take hmem)
    rw [Evictable, mem_offers_tx] at hevictable
    exact hevictable
  · split at hgone
    · cases hgone
    · cases he.symm.trans hgone

end Eviction

/-- The store after every run of calls: each entry has one slot by expiry, one by issue
time in the index of its state and none in the others, it is pooled exactly when its
transaction is, and there are no more entries than the capacity. When all batches have
passed the ingress, a further batch is refused exactly when the transactions it names that
have no entry are more than the room and what may be evicted make up for; refused, it
changes nothing; accepted, it evicts no approval that is valid and pooled or valid and
young. -/
theorem run_consistent_admission (st : Store) (ops : List Op) :
    let s := st.run ops
    s.entries.entries.length ≤ st.capacity ∧
      Indexed s ∧
      s.byExpiry.size = s.entries.entries.length ∧
      s.includedByIssue.size =
        (s.entries.entries.filter fun p => (issueKey .included p.1 p.2).isSome).length ∧
      s.orphansByIssue.size =
        (s.entries.entries.filter fun p => (issueKey .orphan p.1 p.2).isSome).length ∧
      (∀ tx e, s.entry tx = some e →
        (e.state = .pooled ↔ (s.pooled.lookup tx).isSome = true)) ∧
      ((∀ op ∈ ops, op.Checked) → ∀ (now : Int64) keyId issuedAt expiresAt approvals,
        0 ≤ now.toInt →
        let named := approvals.map Approval.txHash
        let answer := st.putAll s now keyId issuedAt expiresAt approvals
        (answer.1 = false ↔
          st.capacity - s.entries.entries.length +
              {tx | Evictable s now st.graceMs named tx}.ncard <
            {tx | tx ∈ named ∧ s.entry tx = none}.ncard) ∧
        (answer.1 = false → answer.2 = s) ∧
        (answer.1 = true → ∀ tx e, s.entry tx = some e → answer.2.entry tx = none →
          tx ∉ named ∧ (now < e.stored.expiresAt → e.state ≠ .pooled ∧
            st.graceMs.toInt ≤ now.toInt - e.stored.issuedAt.toInt))) := by
  intro s
  obtain ⟨hs, hcap⟩ := consistent_run st ops
  have hindexed : Indexed s := hs.indexed
  refine ⟨hcap, hindexed, ?_, hindexed.included.size (separates_issueKey _),
    hindexed.orphans.size (separates_issueKey _), hs.agrees, ?_⟩
  · exact hindexed.expiry.size_of_all separates_expiryKey fun _ _ => rfl
  · intro hchecked now keyId issuedAt expiresAt approvals hnow named answer
    have hdated := dated_run st ops hchecked
    refine ⟨putAll_eq_false_iff hs hcap hdated hnow keyId issuedAt expiresAt approvals, ?_, ?_⟩
    · exact putAll_refused hs.indexed hcap
    · intro hok tx e he hgone
      obtain ⟨hunnamed, e', he', hgoes⟩ := putAll_evicts hs hcap hdated hnow hok he hgone
      obtain rfl := Option.some.inj (he.symm.trans he')
      refine ⟨hunnamed, fun hlive => hgoes.resolve_left ?_⟩
      rw [Int64.not_le]
      exact hlive

/-- In every reachable state `evictExpired` removes the expired approvals, and no others. -/
theorem evictExpired_exact (st : Store) (ops : List Op) (now : Int64) (tx : Hash) :
    (evictExpired (st.run ops) now).1.entry tx =
      ((st.run ops).entry tx).filter fun e => decide (now < e.stored.expiresAt) :=
  entry_evictLoop (consistent_run st ops).1.indexed (le_refl _) 0 tx

def sampleApproval (tx : UInt8) : Approval := ⟨3, 1, repeatByte tx, repeatByte 7, repeatByte 0⟩

/-- A full store whose one approval is young refuses the next one and stays as it is. -/
theorem putAll_young_kept :
    let st : Store := ⟨1, 1000⟩
    let s := st.run [.putAll 1000 ['k'] 900 2000 [sampleApproval 1]]
    st.putAll s 1500 ['k'] 1400 2400 [sampleApproval 2] = (false, s) := by
  intro st s
  have hchecked : ∀ op ∈ [Op.putAll 1000 ['k'] 900 2000 [sampleApproval 1]], op.Checked := by
    intro op hop
    rw [mem_singleton.mp hop]
    exact ⟨1000, by decide, by decide, by decide⟩
  obtain ⟨-, -, -, -, -, -, hadmission⟩ :=
    run_consistent_admission st [.putAll 1000 ['k'] 900 2000 [sampleApproval 1]]
  obtain ⟨-, hrefused, -⟩ :=
    hadmission hchecked 1500 ['k'] 1400 2400 [sampleApproval 2] (by decide)
  have hno : (st.putAll s 1500 ['k'] 1400 2400 [sampleApproval 2]).1 = false := by decide
  exact Prod.ext hno (hrefused hno)

end PrivacySuite.Besu.ApprovalStore
