import PrivacySuite.Data.Best
import PrivacySuite.Reth.ApprovalMoves

/-!
# Admission of a batch to the Reth store

`put_batch` counts the room it needs before it changes anything. What it answers, and what
it makes of every entry, is said here in terms of the approvals before it
(`putBatch_eq`, `approvalOf_puts`); the capacity of the store and the rule for evictions
follow.
-/

namespace PrivacySuite.Reth.Approvals

open Codec NodeApproval Data Store List

/-! ## The hashes with an approval -/

def State.held (s : State) : Finset Hash := Table.having s.entries fun e => e.approval.isSome

variable {s : State} {hash : Hash}

theorem mem_held : hash ∈ s.held ↔ ∃ a, s.approvalOf hash = some a := by
  rw [State.held, mem_having]
  constructor
  · rintro ⟨e, hentry, hsome⟩
    obtain ⟨a, ha⟩ := Option.isSome_iff_exists.mp hsome
    exact ⟨a, approvalOf_eq_some.mpr ⟨e, hentry, ha⟩⟩
  · rintro ⟨a, ha⟩
    obtain ⟨e, hentry, ha⟩ := approvalOf_eq_some.mp ha
    exact ⟨e, hentry, by rw [ha]; rfl⟩

theorem not_mem_held : hash ∉ s.held ↔ s.approvalOf hash = none := by
  rw [mem_held, Option.eq_none_iff_forall_not_mem, not_exists]
  rfl

theorem Indexed.card_held (h : Indexed s) : s.held.card = s.approvals := by
  rw [State.held, card_having, h.approvals_eq]

theorem mem_fresh {named : List Hash} :
    hash ∈ Store.fresh s named ↔ hash ∈ named ∧ s.approvalOf hash = none := by
  have hstep : ∀ out, (hash ∈ named.foldl (fun fresh hash =>
      if !s.hasApproval hash && !fresh.contains hash then fresh ++ [hash] else fresh) out ↔
      hash ∈ out ∨ hash ∈ named ∧ s.approvalOf hash = none) := by
    induction named with
    | nil => simp
    | cons x named ih =>
      intro out
      rw [foldl_cons, ih]
      by_cases hfresh : s.approvalOf x = none
      · simp only [hasApproval_eq_false.mpr hfresh, contains_eq_mem]
        grind
      · have hsome : s.hasApproval x = true := by
          rw [← Bool.not_eq_false, hasApproval_eq_false]
          exact hfresh
        simp only [hsome]
        grind
  exact (hstep []).trans (by simp)

theorem nodup_fresh (s : State) (named : List Hash) : (Store.fresh s named).Nodup := by
  refine List.foldlRecOn named _ nodup_nil fun out hout x _ => ?_
  split
  · rename_i hnew
    have hx : x ∉ out := by simpa using (Bool.and_eq_true_iff.mp hnew).2
    rw [← concat_eq_append]
    exact hout.concat hx
  · exact hout

theorem length_fresh (s : State) (named : List Hash) :
    (Store.fresh s named).length = (named.toFinset \ s.held).card := by
  rw [← toFinset_card_of_nodup (nodup_fresh s named)]
  congr 1
  ext hash
  rw [mem_toFinset, mem_fresh, Finset.mem_sdiff, mem_toFinset, not_mem_held]

/-! ## Storing and evicting -/

section Changes

variable {st : Store} {s : State} {now : Now}

variable {hash : Hash}

theorem entry_put_of_ne {a : Approval} (h : hash ≠ a.txHash) :
    (put s a now).entry hash = s.entry hash := by
  unfold put
  cases hentry : s.entry a.txHash with
  | none => exact (edits_insert _ hentry).frame hash h
  | some e =>
    simp only
    split
    · rfl
    · exact (edits_modify _).frame hash h

theorem approvalOf_put_self (s : State) (a : Approval) (now : Now) :
    (put s a now).approvalOf a.txHash = keepBest rank (s.approvalOf a.txHash) a := by
  unfold put State.approvalOf
  cases hentry : s.entry a.txHash with
  | none =>
    rw [entry_insert]
    rfl
  | some e =>
    cases happroval : e.approval with
    | none =>
      simp only [happroval, Option.any_none, Bool.false_eq_true, if_false, entry_modify, hentry,
        Option.map_some, Option.bind_some]
      rfl
    | some old =>
      simp only [happroval, Option.any_some, decide_eq_true_eq, Option.bind_some, keepBest]
      split
      · rw [hentry, Option.bind_some, happroval]
      · rw [entry_modify, hentry]
        rfl

theorem approvalOf_puts (s : State) (batch : List Approval) (now : Now) (hash : Hash) :
    (batch.foldl (fun s a => put s a now) s).approvalOf hash =
      (batch.filter fun a => a.txHash = hash).foldl (keepBest rank) (s.approvalOf hash) := by
  induction batch generalizing s with
  | nil => rfl
  | cons a batch ih =>
    rw [foldl_cons, ih]
    by_cases hhash : a.txHash = hash
    · subst hhash
      rw [approvalOf_put_self, filter_cons_of_pos (by simp), foldl_cons]
    · rw [State.approvalOf, entry_put_of_ne (Ne.symm hhash), filter_cons_of_neg (by simpa)]
      rfl

theorem entry_puts (s : State) (batch : List Approval) (now : Now)
    (h : hash ∉ batch.map Approval.txHash) :
    (batch.foldl (fun s a => put s a now) s).entry hash = s.entry hash := by
  induction batch generalizing s with
  | nil => rfl
  | cons a batch ih =>
    rw [map_cons, mem_cons, not_or] at h
    rw [foldl_cons, ih _ h.2, entry_put_of_ne h.1]

theorem entry_evict_of_ne {hash' : Hash} (h : hash' ≠ hash) :
    (st.evict s hash).entry hash' = s.entry hash' := by
  unfold evict
  split
  · exact (edits_modify _).frame hash' h
  · exact edits_remove.frame hash' h

theorem approvalOf_evict_self (st : Store) (s : State) (hash : Hash) :
    (st.evict s hash).approvalOf hash = none := by
  unfold evict State.approvalOf
  split
  · rw [entry_modify]
    cases s.entry hash with
    | none => rfl
    | some e => rfl
  · rw [entry_remove]
    rfl

theorem entry_evicts (st : Store) (s : State) {victims : List Hash} (h : hash ∉ victims) :
    (victims.foldl st.evict s).entry hash = s.entry hash := by
  induction victims generalizing s with
  | nil => rfl
  | cons v victims ih =>
    rw [mem_cons, not_or] at h
    rw [foldl_cons, ih _ h.2, entry_evict_of_ne h.1]

theorem approvalOf_evicts (st : Store) (s : State) {victims : List Hash} (h : hash ∈ victims) :
    (victims.foldl st.evict s).approvalOf hash = none := by
  induction victims generalizing s with
  | nil => cases h
  | cons v victims ih =>
    rw [foldl_cons]
    by_cases hrest : hash ∈ victims
    · exact ih _ hrest
    · obtain rfl : hash = v := (mem_cons.mp h).resolve_right hrest
      rw [State.approvalOf, entry_evicts st _ hrest]
      exact approvalOf_evict_self st s hash

end Changes

/-! ## The answer to a batch -/

section Admission

variable (st : Store) {s : State}

def Store.needed (s : State) (batch : List Approval) : Nat :=
  (Store.fresh s (batch.map Approval.txHash)).length - (st.capacity - s.approvals)

def Store.evicted (s : State) (batch : List Approval) (now : Now) : List Hash :=
  (s.candidates now.ms st.grace (batch.map Approval.txHash)).take (st.needed s batch)

theorem putBatch_eq (h : Indexed s) (batch : List Approval) (now : Now) :
    st.putBatch s batch now =
      if (s.candidates now.ms st.grace (batch.map Approval.txHash)).length < st.needed s batch then
        (.error .storeFull, s)
      else (.ok (), batch.foldl (fun s a => put s a now)
        ((st.evicted s batch now).foldl st.evict s)) := by
  unfold putBatch
  simp only [victims_eq h]
  by_cases hfree : st.capacity - s.approvals < (Store.fresh s (batch.map Approval.txHash)).length
  · rw [if_pos hfree]
    have hlen : ∀ (xs : List Hash) n, ((xs.take n).length < n ↔ xs.length < n) := by
      intro xs n
      rw [length_take]
      omega
    simp only [hlen]
    rfl
  · have hzero : st.needed s batch = 0 := by
      unfold needed
      omega
    rw [if_neg hfree, evicted, hzero, if_neg (Nat.not_lt_zero _), take_zero]
    rfl

theorem putBatch_ok_iff (h : Indexed s) (batch : List Approval) (now : Now) :
    (st.putBatch s batch now).1 = .ok () ↔ st.needed s batch ≤
      (s.candidates now.ms st.grace (batch.map Approval.txHash)).length := by
  rw [putBatch_eq st h]
  split
  · rename_i hfew
    exact iff_of_false (by simp) (Nat.not_le.mpr hfew)
  · rename_i henough
    exact iff_of_true rfl (Nat.le_of_not_lt henough)

variable {batch : List Approval} {now : Now}

theorem putBatch_state (h : Indexed s) (hok : (st.putBatch s batch now).1 = .ok ()) :
    (st.putBatch s batch now).2 = batch.foldl (fun s a => put s a now)
      ((st.evicted s batch now).foldl st.evict s) := by
  rw [putBatch_ok_iff st h, ← Nat.not_lt] at hok
  rw [putBatch_eq st h, if_neg hok]

theorem putBatch_refused (h : Indexed s) (hno : (st.putBatch s batch now).1 ≠ .ok ()) :
    (st.putBatch s batch now) = (.error .storeFull, s) := by
  rw [Ne, putBatch_ok_iff st h, Nat.not_le] at hno
  rw [putBatch_eq st h, if_pos hno]

theorem mem_evicted (h : Indexed s) {hash : Hash} (hmem : hash ∈ st.evicted s batch now) :
    Evictable s now.ms st.grace (batch.map Approval.txHash) hash :=
  (mem_candidates h).mp (mem_of_mem_take hmem)

theorem length_evicted (h : Indexed s) (hok : (st.putBatch s batch now).1 = .ok ()) :
    (st.evicted s batch now).length = st.needed s batch := by
  rw [putBatch_ok_iff st h] at hok
  rw [evicted, length_take, min_eq_left hok]

theorem entry_putBatch (h : Indexed s) {hash : Hash} (hok : (st.putBatch s batch now).1 = .ok ())
    (hnamed : hash ∉ batch.map Approval.txHash) (hkept : hash ∉ st.evicted s batch now) :
    (st.putBatch s batch now).2.entry hash = s.entry hash := by
  rw [putBatch_state st h hok, entry_puts _ batch now hnamed, entry_evicts st s hkept]

theorem approvalOf_putBatch (h : Indexed s) (hok : (st.putBatch s batch now).1 = .ok ())
    (hash : Hash) :
    (st.putBatch s batch now).2.approvalOf hash =
      if hash ∈ st.evicted s batch now then none
      else (batch.filter fun a => a.txHash = hash).foldl (keepBest rank) (s.approvalOf hash) := by
  rw [putBatch_state st h hok, approvalOf_puts]
  split
  · rename_i hmem
    have hnone : (batch.filter fun a => a.txHash = hash) = [] := by
      rw [filter_eq_nil_iff]
      intro a ha
      simp only [decide_eq_true_eq]
      rintro rfl
      exact (mem_evicted st h hmem).1 (mem_map_of_mem ha)
    rw [hnone, foldl_nil, approvalOf_evicts st s hmem]
  · rename_i hmem
    rw [State.approvalOf, State.approvalOf, entry_evicts st s hmem]

theorem held_putBatch (h : Indexed s) (hok : (st.putBatch s batch now).1 = .ok ()) :
    (st.putBatch s batch now).2.held =
      s.held \ (st.evicted s batch now).toFinset ∪ (batch.map Approval.txHash).toFinset := by
  ext hash
  rw [mem_held, approvalOf_putBatch st h hok, Finset.mem_union, Finset.mem_sdiff,
    mem_toFinset, mem_toFinset]
  by_cases hmem : hash ∈ st.evicted s batch now
  · simp [hmem, (mem_evicted st h hmem).1]
  · rw [if_neg hmem, ← Option.isSome_iff_exists]
    by_cases hnamed : hash ∈ batch.map Approval.txHash
    · obtain ⟨a, ha, rfl⟩ := mem_map.mp hnamed
      have hoffered : (batch.filter fun b => b.txHash = a.txHash) ≠ [] :=
        ne_nil_of_mem (mem_filter.mpr ⟨ha, by simp⟩)
      exact iff_of_true (foldl_keepBest_isSome (.inr hoffered)) (.inr hnamed)
    · have hnone : (batch.filter fun b => b.txHash = hash) = [] := by
        rw [filter_eq_nil_iff]
        intro b hb
        simp only [decide_eq_true_eq]
        rintro rfl
        exact hnamed (mem_map_of_mem hb)
      rw [hnone, foldl_nil, Option.isSome_iff_exists, ← mem_held]
      simp [hmem, hnamed]

theorem approvals_putBatch (h : Indexed s) (hcap : s.approvals ≤ st.capacity)
    (batch : List Approval) (now : Now) :
    (st.putBatch s batch now).2.approvals ≤ st.capacity := by
  have hafter : Indexed (st.putBatch s batch now).2 := indexed_apply st h (.putBatch batch now)
  by_cases hok : (st.putBatch s batch now).1 = .ok ()
  · have hnodup : (st.evicted s batch now).Nodup :=
      (nodup_candidates h).sublist (take_sublist _ _)
    rw [← hafter.card_held, held_putBatch st h hok]
    rw [← h.card_held] at hcap
    apply card_after_eviction hcap
    · intro hash hmem
      obtain ⟨hunnamed, e, a, hentry, ha, -⟩ := mem_evicted st h (mem_toFinset.mp hmem)
      rw [Finset.mem_sdiff, mem_held, mem_toFinset]
      exact ⟨⟨a, approvalOf_eq_some.mpr ⟨e, hentry, ha⟩⟩, hunnamed⟩
    · rw [toFinset_card_of_nodup hnodup, length_evicted st h hok, ← length_fresh,
        h.card_held, needed]
      omega
  · rw [putBatch_refused st h hok]
    exact hcap

end Admission

/-! ## The rule for evictions -/

section Rule

variable {s : State} {now grace : UInt64} {keep : List Hash}

/-- `hashes` lists the hashes with the property, ordered by a time of their approvals and
then by themselves. -/
def ListsBy (s : State) (time : Approval → UInt64) (P : Hash → Prop) (hashes : List Hash) : Prop :=
  (∀ hash, hash ∈ hashes ↔ P hash) ∧
    hashes.Pairwise fun hash hash' => ∀ a a', s.approvalOf hash = some a →
      s.approvalOf hash' = some a' →
        toLex ((time a).toNat, hash) < toLex ((time a').toNat, hash')

theorem listsBy_expired (h : Indexed s) :
    ListsBy s Approval.expiresAt (fun hash => hash ∉ keep ∧ Expired s now hash)
      (s.expiredCandidates now keep) := by
  refine ⟨fun hash => mem_expiredCandidates h, ?_⟩
  apply List.Pairwise.filter
  rw [pairwise_map]
  apply (s.byExpiry.sorted.filter _).imp_of_mem
  intro k k' hk hk' hlt a a' ha ha'
  obtain ⟨b, hb, htime⟩ := (mem_byExpiry h).mp (mem_of_mem_filter hk)
  obtain ⟨b', hb', htime'⟩ := (mem_byExpiry h).mp (mem_of_mem_filter hk')
  obtain rfl := Option.some.inj (ha.symm.trans hb)
  obtain rfl := Option.some.inj (ha'.symm.trans hb')
  rw [htime, htime']
  exact hlt

theorem listsBy_class (h : Indexed s) {c : Nat} {listed : List Hash} :
    ListsBy s Approval.issuedAt
      (fun hash => (hash ∉ keep ∧ OldInClass s now grace c hash) ∧ hash ∉ listed)
      ((s.classCandidates now grace keep c).filter fun hash => !listed.contains hash) := by
  refine ⟨fun hash => by simp [mem_filter, mem_classCandidates h], ?_⟩
  apply List.Pairwise.filter
  apply List.Pairwise.filter
  rw [pairwise_map]
  have hsorted : ((s.classRange c).filter fun k =>
      !decide (State.age now (ofLex (ofLex k).2).1 < grace.toNat)).Pairwise (· < ·) :=
    (OrdSet.range_sorted _ _ _).filter _
  apply hsorted.imp_of_mem
  intro k k' hk hk' hlt a a' ha ha'
  obtain ⟨hmem, hc⟩ := (mem_classRange h).mp (mem_of_mem_filter hk)
  obtain ⟨hmem', hc'⟩ := (mem_classRange h).mp (mem_of_mem_filter hk')
  obtain ⟨e, b, hentry, hb, -, htime⟩ := (mem_evictable h).mp hmem
  obtain ⟨e', b', hentry', hb', -, htime'⟩ := (mem_evictable h).mp hmem'
  obtain rfl := Option.some.inj (ha.symm.trans (approvalOf_eq_some.mpr ⟨e, hentry, hb⟩))
  obtain rfl := Option.some.inj (ha'.symm.trans (approvalOf_eq_some.mpr ⟨e', hentry', hb'⟩))
  rw [htime, htime']
  -- the keys are of one class, so what orders them is behind it
  rw [Prod.Lex.lt_iff] at hlt
  rcases hlt with hlt | ⟨-, hlt⟩
  · rw [hc, hc'] at hlt
    exact absurd hlt (lt_irrefl c)
  · exact hlt

theorem ncard_evictable (h : Indexed s) :
    {hash | Evictable s now grace keep hash}.ncard = (s.candidates now grace keep).length := by
  have hset : {hash | Evictable s now grace keep hash} =
      ((s.candidates now grace keep).toFinset : Set Hash) := by
    ext hash
    simp [mem_candidates h]
  rw [hset, Set.ncard_coe_finset, toFinset_card_of_nodup (nodup_candidates h)]

theorem ncard_fresh (s : State) (named : List Hash) :
    {hash | hash ∈ named ∧ s.approvalOf hash = none}.ncard = (Store.fresh s named).length := by
  have hset : {hash | hash ∈ named ∧ s.approvalOf hash = none} =
      ((Store.fresh s named).toFinset : Set Hash) := by
    ext hash
    simp [mem_fresh]
  rw [hset, Set.ncard_coe_finset, toFinset_card_of_nodup (nodup_fresh s named)]

theorem ListsBy.congr {time : Approval → UInt64} {P Q : Hash → Prop} {hashes : List Hash}
    (h : ListsBy s time P hashes) (hiff : ∀ hash, P hash ↔ Q hash) : ListsBy s time Q hashes :=
  ⟨fun hash => (h.1 hash).trans (hiff hash), h.2⟩

theorem not_oldInClass_both {hash : Hash} (h : OldInClass s now grace orphanClass hash) :
    ¬ OldInClass s now grace includedClass hash := by
  rintro ⟨e, a, hentry, -, hclass, -⟩
  obtain ⟨e', a', hentry', -, hclass', -⟩ := h
  obtain rfl := Option.some.inj (hentry.symm.trans hentry')
  exact absurd (hclass.symm.trans hclass') (by decide)

/-- Everything that may go: the expired, then the included, then the orphans. -/
theorem candidates_eq (h : Indexed s) (now grace : UInt64) (keep : List Hash) :
    ∃ expired included orphans, s.candidates now grace keep = expired ++ included ++ orphans ∧
      ListsBy s Approval.expiresAt (fun hash => hash ∉ keep ∧ Expired s now hash) expired ∧
      ListsBy s Approval.issuedAt (fun hash => hash ∉ keep ∧ ¬ Expired s now hash ∧
        OldInClass s now grace includedClass hash) included ∧
      ListsBy s Approval.issuedAt (fun hash => hash ∉ keep ∧ ¬ Expired s now hash ∧
        OldInClass s now grace orphanClass hash) orphans := by
  refine ⟨_, _, _, rfl, listsBy_expired h, (listsBy_class h).congr ?_, (listsBy_class h).congr ?_⟩
  · intro hash
    rw [mem_expiredCandidates h]
    tauto
  · intro hash
    have hclass : OldInClass s now grace orphanClass hash →
        ¬ OldInClass s now grace includedClass hash := not_oldInClass_both
    rw [State.pastCandidates, mem_append_filter, mem_expiredCandidates h, mem_classCandidates h]
    tauto

end Rule

/-- A batch is admitted as a whole or not at all. It is refused exactly when the
transactions it names that have no approval are more than the room and what may be evicted
make up for; refused, it changes nothing. Accepted, it evicts the first approvals, as many
as room is missing, of those that may go. -/
theorem putBatch_all_or_nothing (st : Store) (s : State) (h : Indexed s) (batch : List Approval)
    (now : Now) :
    let named := batch.map Approval.txHash
    let missing := {hash | hash ∈ named ∧ s.approvalOf hash = none}.ncard
    let free := st.capacity - s.approvals
    let after := (st.putBatch s batch now).2
    ((st.putBatch s batch now).1 = .error .storeFull ↔
        free + {hash | Evictable s now.ms st.grace named hash}.ncard < missing) ∧
      ((st.putBatch s batch now).1 = .error .storeFull → after = s) ∧
      ((st.putBatch s batch now).1 ≠ .error .storeFull → (st.putBatch s batch now).1 = .ok () ∧
        ∃ expired included orphans : List Hash,
          ListsBy s Approval.expiresAt (fun hash => hash ∉ named ∧ Expired s now.ms hash) expired ∧
          ListsBy s Approval.issuedAt (fun hash => hash ∉ named ∧ ¬ Expired s now.ms hash ∧
            OldInClass s now.ms st.grace includedClass hash) included ∧
          ListsBy s Approval.issuedAt (fun hash => hash ∉ named ∧ ¬ Expired s now.ms hash ∧
            OldInClass s now.ms st.grace orphanClass hash) orphans ∧
          (∀ hash ∈ (expired ++ included ++ orphans).take (missing - free),
            after.approvalOf hash = none) ∧
          (∀ hash ∉ (expired ++ included ++ orphans).take (missing - free), hash ∉ named →
            after.entry hash = s.entry hash) ∧
          ∀ hash a, s.approvalOf hash = some a → after.approvalOf hash = none →
            hash ∉ named ∧ (now.ms < a.expiresAt → ∃ e, s.entry hash = some e ∧
              e.pooled = none ∧ st.grace.toNat ≤ State.age now.ms a.issuedAt.toNat)) := by
  intro named missing free after
  have hmissing : missing = (Store.fresh s named).length := ncard_fresh s named
  have hneeded : st.needed s batch = missing - free := by
    rw [hmissing]
    rfl
  have hanswer : (st.putBatch s batch now).1 = .error .storeFull ↔
      (st.putBatch s batch now).1 ≠ .ok () := by
    constructor
    · intro herror
      rw [herror]
      nofun
    · intro hno
      rw [putBatch_refused st h hno]
  refine ⟨?_, ?_, ?_⟩
  · rw [hanswer, Ne, putBatch_ok_iff st h, hneeded, ncard_evictable h]
    show ¬ missing - free ≤ (s.candidates now.ms st.grace named).length ↔
      free + (s.candidates now.ms st.grace named).length < missing
    omega
  · intro herror
    exact congrArg Prod.snd (putBatch_refused st h (hanswer.mp herror))
  · intro hno
    have hok : (st.putBatch s batch now).1 = .ok () := by
      by_contra hne
      exact hno (hanswer.mpr hne)
    obtain ⟨expired, included, orphans, hlist, hexpired, hincluded, horphans⟩ :=
      candidates_eq h now.ms st.grace named
    have hevicted : st.evicted s batch now =
        (expired ++ included ++ orphans).take (missing - free) := by
      rw [evicted, hlist, hneeded]
    refine ⟨hok, expired, included, orphans, hexpired, hincluded, horphans, ?_, ?_, ?_⟩
    · intro hash hmem
      rw [← hevicted] at hmem
      exact (approvalOf_putBatch st h hok hash).trans (if_pos hmem)
    · intro hash hmem hunnamed
      rw [← hevicted] at hmem
      exact entry_putBatch st h hok hunnamed hmem
    · intro hash a ha hnone
      have hgone : hash ∈ st.evicted s batch now := by
        by_contra hmem
        have hsome := approvalOf_putBatch st h hok hash
        rw [if_neg hmem, hnone, ha] at hsome
        have hkept : ((batch.filter fun a => a.txHash = hash).foldl (keepBest rank)
          (some a)).isSome = true := foldl_keepBest_isSome (.inl rfl)
        rw [← hsome] at hkept
        cases hkept
      obtain ⟨hunnamed, e, a', hentry, ha', hgoes⟩ := mem_evicted st h hgone
      obtain rfl := Option.some.inj (ha.symm.trans (approvalOf_eq_some.mpr ⟨e, hentry, ha'⟩))
      refine ⟨hunnamed, fun hlive => ⟨e, hentry, ?_⟩⟩
      exact hgoes.resolve_left (UInt64.not_le.mpr hlive)

def sampleApproval (tx : UInt8) (issuedAt expiresAt : UInt64) : Approval :=
  ⟨0, 1, repeatByte tx, repeatByte 7, [107], issuedAt, expiresAt⟩

/-- Seven approvals fill the store: `1` and `2` expire, `3` and `4` are included, `5` is an
orphan, `6` is pooled and `7` is young. -/
def fullHistory : List Op :=
  [.putBatch [sampleApproval 1 1000 20000, sampleApproval 2 2000 15000] ⟨0, 2500⟩,
    .putBatch [sampleApproval 3 4000 90000, sampleApproval 4 3000 90000,
      sampleApproval 5 6000 90000, sampleApproval 6 5000 90000] ⟨fromMillis 4000, 6500⟩,
    .included 5 [repeatByte 3, repeatByte 4] ⟨fromMillis 5000, 7500⟩,
    .seenAt (repeatByte 6) (fromMillis 5500) ⟨fromMillis 5500, 8000⟩,
    .putBatch [sampleApproval 7 28000 90000] ⟨fromMillis 26000, 28500⟩]

/-- The hashes of `1` to `12` that hold an approval. -/
def approvedHere (s : State) : List UInt8 :=
  [1, 2, 3, 4, 5, 6, 7, 8, 9, 10, 11, 12].filter fun tx => s.hasApproval (repeatByte tx)

/-- Four new transactions, one of them named twice, and a pooled one: the two approvals that
have expired go and the two included ones. Six new ones find only five that may go. -/
theorem putBatch_evicts_in_order :
    let st : Store := ⟨fromMillis 5000, 7, 0⟩
    let now : Now := ⟨fromMillis 27500, 30000⟩
    let batch := [8, 9, 6, 10, 8, 11].map fun tx => sampleApproval tx 29000 95000
    let larger := [8, 9, 10, 11, 12, 7, 13].map fun tx => sampleApproval tx 29000 95000
    let s := st.run fullHistory
    approvedHere s = [1, 2, 3, 4, 5, 6, 7] ∧
      (st.putBatch s batch now).1 = .ok () ∧
      approvedHere (st.putBatch s batch now).2 = [5, 6, 7, 8, 9, 10, 11] ∧
      (∀ hash a, s.approvalOf hash = some a → (st.putBatch s batch now).2.approvalOf hash = none →
        hash ∉ batch.map Approval.txHash ∧ (now.ms < a.expiresAt → ∃ e, s.entry hash = some e ∧
          e.pooled = none ∧ st.grace.toNat ≤ State.age now.ms a.issuedAt.toNat)) ∧
      (st.putBatch s larger now).1 = .error .storeFull ∧ (st.putBatch s larger now).2 = s := by
  intro st now batch larger s
  have hs : Indexed s := indexed_run st fullHistory
  have hfull : approvedHere s = [1, 2, 3, 4, 5, 6, 7] := by decide +kernel
  have hok : (st.putBatch s batch now).1 = .ok () := by decide +kernel
  have hleft : approvedHere (st.putBatch s batch now).2 = [5, 6, 7, 8, 9, 10, 11] := by
    decide +kernel
  have hrefused : (st.putBatch s larger now).1 = .error .storeFull := by decide +kernel
  obtain ⟨-, expired, included, orphans, -, -, -, -, -, hgone⟩ :=
    (putBatch_all_or_nothing st s hs batch now).2.2 (by rw [hok]; nofun)
  exact ⟨hfull, hok, hleft, hgone, hrefused,
    (putBatch_all_or_nothing st s hs larger now).2.1 hrefused⟩

end PrivacySuite.Reth.Approvals
