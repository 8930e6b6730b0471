import PrivacySuite.Besu.ApprovalVictims
import PrivacySuite.Data.Best
import PrivacySuite.Relational.Rows

/-!
# Admission of a batch to the Besu store

What `putAll` answers and what it makes of every entry, in terms of the entries before it;
and what holds after every run of calls: the indexes, the pooled states and the capacity,
and, behind the checks of the ingress, exactly when a batch is refused.
-/

namespace PrivacySuite.Besu.ApprovalStore

open Codec NodeApproval Data List

/-! ## Ranks -/

def Stored.rank (x : Stored) : Rank :=
  rankOf x.issuedAt.toUInt64 (getBytes x.keyId) x.approval.fingerprint

theorem compareTo_eq_gt {K : Type} [LinearOrder K] {a b : K} : compareTo a b = .gt ↔ b < a :=
  cmp_eq_gt_iff a b

theorem compareTo_eq_eq {K : Type} [LinearOrder K] {a b : K} : compareTo a b = .eq ↔ b = a :=
  (cmp_eq_eq_iff a b).trans eq_comm

/-- The comparison of the source is that of the ranks. -/
theorem rank_eq_gt {a b : Stored} : rank a b = .gt ↔ b.rank < a.rank := by
  simp only [ApprovalStore.rank, compareBytes, Ordering.then_eq_gt, compareTo_eq_gt,
    compareTo_eq_eq, Stored.rank, rankOf, Prod.Lex.lt_iff, ofLex_toLex]

/-! ## What a batch offers -/

def offerOf (offered : List Stored) (tx : Hash) : Option Stored :=
  offered.find? fun x => decide (x.tx = tx)

section Offers

variable {offered : List Stored} {next : Stored} {tx : Hash}

theorem tx_of_offerOf {x : Stored} (h : offerOf offered tx = some x) : x.tx = tx := by
  unfold offerOf at h
  exact of_decide_eq_true (find?_some (p := fun x : Stored => decide (x.tx = tx)) h)

theorem offerOf_eq_some (hnodup : (offered.map Stored.tx).Nodup) {x : Stored} :
    offerOf offered tx = some x ↔ x ∈ offered ∧ x.tx = tx :=
  Relational.find?_key hnodup

theorem offerOf_eq_none : offerOf offered tx = none ↔ tx ∉ offered.map Stored.tx := by
  simp [offerOf]

theorem any_tx_iff : (offered.any fun held => decide (held.tx = tx)) = true ↔
    tx ∈ offered.map Stored.tx := by
  simp [any_eq_true]

theorem map_tx_merge (offered : List Stored) (next : Stored) :
    (merge offered next).map Stored.tx =
      if next.tx ∈ offered.map Stored.tx then offered.map Stored.tx
      else offered.map Stored.tx ++ [next.tx] := by
  unfold merge
  by_cases h : next.tx ∈ offered.map Stored.tx
  · rw [if_pos (any_tx_iff.mpr h), if_pos h, map_map]
    apply map_congr_left
    intro held _
    simp only [Function.comp_apply]
    split
    · rename_i hsame
      exact hsame.1.symm
    · rfl
  · rw [if_neg (any_tx_iff.not.mpr h), if_neg h, map_append, map_singleton]

theorem offerOf_merge (offered : List Stored) (next : Stored) (tx : Hash) :
    offerOf (merge offered next) tx =
      if next.tx = tx then keepBest Stored.rank (offerOf offered tx) next
      else offerOf offered tx := by
  by_cases hmem : next.tx ∈ offered.map Stored.tx
  · have hfind : offerOf (merge offered next) tx = (offerOf offered tx).map fun held =>
        if held.tx = next.tx ∧ rank next held = .gt then next else held := by
      rw [merge, if_pos (any_tx_iff.mpr hmem), offerOf, find?_map, offerOf]
      congr 2
      funext held
      simp only [Function.comp_apply]
      split
      · rename_i hsame
        rw [hsame.1]
      · rfl
    rw [hfind]
    by_cases htx : next.tx = tx
    · obtain ⟨held, hheld⟩ : ∃ held, offerOf offered tx = some held := by
        rw [← Option.ne_none_iff_exists', Ne, offerOf_eq_none, not_not, ← htx]
        exact hmem
      have hsame : held.tx = next.tx := by
        rw [htx]
        exact tx_of_offerOf hheld
      rw [if_pos htx, hheld, Option.map_some, keepBest]
      by_cases hle : next.rank ≤ held.rank
      · rw [if_pos hle, if_neg]
        rintro ⟨-, hgt⟩
        exact absurd (rank_eq_gt.mp hgt) (not_lt.mpr hle)
      · rw [if_neg hle, if_pos ⟨hsame, rank_eq_gt.mpr (not_le.mp hle)⟩]
    · rw [if_neg htx]
      cases hheld : offerOf offered tx with
      | none => rfl
      | some held =>
        have hother : held.tx = tx := tx_of_offerOf hheld
        rw [Option.map_some, if_neg]
        rintro ⟨hsame, -⟩
        exact htx (hsame.symm.trans hother)
  · rw [merge, if_neg (any_tx_iff.not.mpr hmem), offerOf, find?_append, ← offerOf]
    by_cases htx : next.tx = tx
    · have hnone : offerOf offered tx = none := by
        rw [offerOf_eq_none, ← htx]
        exact hmem
      rw [if_pos htx, hnone, find?_cons_of_pos (by simpa using htx)]
      rfl
    · rw [if_neg htx, find?_cons_of_neg (by simpa using htx), find?_nil, Option.or_none]

theorem nodup_merges (xs : List Stored) (h : (offered.map Stored.tx).Nodup) :
    ((xs.foldl merge offered).map Stored.tx).Nodup := by
  refine List.foldlRecOn (motive := fun out => (out.map Stored.tx).Nodup) xs merge h
    fun out hout x _ => ?_
  rw [map_tx_merge]
  split
  · exact hout
  · rename_i hnew
    rw [← concat_eq_append]
    exact hout.concat hnew

theorem mem_merges_tx (xs offered : List Stored) :
    tx ∈ (xs.foldl merge offered).map Stored.tx ↔
      tx ∈ offered.map Stored.tx ∨ tx ∈ xs.map Stored.tx := by
  induction xs generalizing offered with
  | nil => simp
  | cons x xs ih =>
    have hstep : tx ∈ (merge offered x).map Stored.tx ↔ tx ∈ offered.map Stored.tx ∨ tx = x.tx := by
      rw [map_tx_merge]
      split
      · rename_i hold
        constructor
        · exact .inl
        · rintro (h | rfl)
          · exact h
          · exact hold
      · rw [mem_append, mem_singleton]
    rw [foldl_cons, ih, hstep, map_cons, mem_cons, or_assoc]

theorem offerOf_merges (xs offered : List Stored) (tx : Hash) :
    offerOf (xs.foldl merge offered) tx =
      (xs.filter fun x => x.tx = tx).foldl (keepBest Stored.rank) (offerOf offered tx) := by
  induction xs generalizing offered with
  | nil => rfl
  | cons x xs ih =>
    rw [foldl_cons, ih, offerOf_merge]
    by_cases htx : x.tx = tx
    · rw [if_pos htx, filter_cons_of_pos (by simpa using htx), foldl_cons]
    · rw [if_neg htx, filter_cons_of_neg (by simpa using htx)]

end Offers

section Batch

variable (keyId : List Char) (issuedAt expiresAt : Int64) (approvals : List Approval)

theorem offers_eq : offers keyId issuedAt expiresAt approvals =
    (approvals.map fun a => (⟨a, keyId, issuedAt, expiresAt⟩ : Stored)).foldl merge [] :=
  foldl_map.symm

theorem nodup_offers : ((offers keyId issuedAt expiresAt approvals).map Stored.tx).Nodup := by
  rw [offers_eq]
  exact nodup_merges _ nodup_nil

theorem mem_offers_tx {tx : Hash} :
    tx ∈ (offers keyId issuedAt expiresAt approvals).map Stored.tx ↔
      tx ∈ approvals.map Approval.txHash := by
  rw [offers_eq, mem_merges_tx, map_map]
  exact or_iff_right not_mem_nil

theorem offerOf_offers (tx : Hash) :
    offerOf (offers keyId issuedAt expiresAt approvals) tx =
      ((approvals.map fun a => (⟨a, keyId, issuedAt, expiresAt⟩ : Stored)).filter
        fun x => x.tx = tx).foldl (keepBest Stored.rank) none := by
  rw [offers_eq, offerOf_merges]
  rfl

end Batch

/-! ## Storing and evicting -/

def State.held (s : State) : Finset Hash := Table.having s.entries fun _ => true

theorem mem_held {s : State} {tx : Hash} : tx ∈ s.held ↔ ∃ e, s.entry tx = some e := by
  rw [State.held, mem_having]
  simp [State.entry]

theorem card_held (s : State) : s.held.card = s.entries.entries.length := by
  rw [State.held, card_having, filter_true]

section Changes

variable {s : State} {tx : Hash}

theorem entry_removes (victims : List Hash) (s : State) (tx : Hash) :
    (victims.foldl State.remove s).entry tx = if tx ∈ victims then none else s.entry tx := by
  induction victims generalizing s with
  | nil => rfl
  | cons v victims ih =>
    rw [foldl_cons, ih]
    by_cases hv : tx = v
    · subst hv
      simp [entry_remove]
    · rw [(edits_remove s v).frame tx hv]
      simp [hv]

theorem pooled_removes {victims : List Hash} (s : State) :
    (victims.foldl State.remove s).pooled = s.pooled := by
  induction victims generalizing s with
  | nil => rfl
  | cons v victims ih => rw [foldl_cons, ih, (edits_remove s v).pooled]

theorem stateFor_congr {s' : State} (hentry : s'.entry tx = s.entry tx)
    (hpooled : s'.pooled = s.pooled) : s'.stateFor tx = s.stateFor tx := by
  rw [State.stateFor, State.stateFor, hentry, hpooled]

/-- The entries behind a list of changes, one for each transaction. -/
theorem entry_upserts {xs : List Stored} (hnodup : (xs.map Stored.tx).Nodup) (s : State)
    (tx : Hash) :
    (xs.foldl State.upsert s).entry tx =
      match offerOf xs tx with
      | some x => some ⟨x, s.stateFor tx⟩
      | none => s.entry tx := by
  induction xs generalizing s with
  | nil => rfl
  | cons x xs ih =>
    rw [map_cons, nodup_cons] at hnodup
    have hedit := edits_upsert s x
    rw [foldl_cons, ih hnodup.2]
    by_cases hx : x.tx = tx
    · subst hx
      have hnone : offerOf xs x.tx = none := offerOf_eq_none.mpr hnodup.1
      rw [hnone, offerOf, find?_cons_of_pos (by simp)]
      exact entry_upsert s x
    · have hrest : offerOf (x :: xs) tx = offerOf xs tx := by
        rw [offerOf, find?_cons_of_neg (by simpa using hx), offerOf]
      rw [hrest]
      cases offerOf xs tx with
      | none => exact hedit.frame tx (Ne.symm hx)
      | some y => simp only [stateFor_congr (hedit.frame tx (Ne.symm hx)) hedit.pooled]

theorem consistent_upserts (h : Consistent s) (xs : List Stored) :
    Consistent (xs.foldl State.upsert s) :=
  List.foldlRecOn xs _ h fun _ hs x _ => consistent_upsert hs x

end Changes

/-! ## The answer to a batch -/

section Answer

variable {s : State} {now : Int64} {offered : List Stored} {tx : Hash}

theorem nodup_changes (hnodup : (offered.map Stored.tx).Nodup) :
    ((changes s now offered).map Stored.tx).Nodup :=
  hnodup.sublist (filter_sublist.map _)

theorem offerOf_changes (hnodup : (offered.map Stored.tx).Nodup) (tx : Hash) :
    offerOf (changes s now offered) tx = (offerOf offered tx).filter fun x =>
      match s.entry tx with
      | none => true
      | some e => !e.stored.usableAt now || decide (rank x e.stored = .gt) := by
  apply Option.ext
  intro x
  rw [offerOf_eq_some (nodup_changes hnodup), Option.filter_eq_some_iff,
    offerOf_eq_some hnodup, changes, mem_filter]
  constructor
  · rintro ⟨⟨hmem, hchange⟩, rfl⟩
    exact ⟨⟨hmem, rfl⟩, hchange⟩
  · rintro ⟨⟨hmem, rfl⟩, hchange⟩
    exact ⟨⟨hmem, hchange⟩, rfl⟩

theorem length_added (hnodup : (offered.map Stored.tx).Nodup) :
    (offered.filter fun x => (s.entry x.tx).isNone).length =
      ((offered.map Stored.tx).toFinset \ s.held).card := by
  have hnew : ((offered.filter fun x => (s.entry x.tx).isNone).map Stored.tx).Nodup :=
    hnodup.sublist (filter_sublist.map _)
  rw [← length_map Stored.tx, ← toFinset_card_of_nodup hnew]
  congr 1
  ext tx
  simp only [mem_toFinset, mem_map, mem_filter, Finset.mem_sdiff, mem_held,
    not_exists]
  constructor
  · rintro ⟨x, ⟨hmem, hnone⟩, rfl⟩
    refine ⟨⟨x, hmem, rfl⟩, ?_⟩
    intro e he
    rw [he] at hnone
    cases hnone
  · rintro ⟨⟨x, hmem, rfl⟩, hnone⟩
    refine ⟨x, ⟨hmem, ?_⟩, rfl⟩
    rw [Option.isNone_iff_eq_none, Option.eq_none_iff_forall_not_mem]
    exact hnone

def Store.evicted (st : Store) (s : State) (now : Int64) (keyId : List Char)
    (issuedAt expiresAt : Int64) (approvals : List Approval) : List Hash :=
  (s.candidates now st.graceMs ((offers keyId issuedAt expiresAt approvals).map Stored.tx)).take
    (((approvals.map Approval.txHash).toFinset \ s.held).card -
      (st.capacity - s.entries.entries.length))

theorem toFinset_offers (keyId : List Char) (issuedAt expiresAt : Int64)
    (approvals : List Approval) :
    ((offers keyId issuedAt expiresAt approvals).map Stored.tx).toFinset =
      (approvals.map Approval.txHash).toFinset := by
  ext tx
  rw [mem_toFinset, mem_toFinset, mem_offers_tx]

variable {st : Store} {keyId : List Char} {issuedAt expiresAt : Int64} {approvals : List Approval}

theorem putAll_eq (h : Indexed s) (hcap : s.entries.entries.length ≤ st.capacity) :
    st.putAll s now keyId issuedAt expiresAt approvals =
      if (s.candidates now st.graceMs
          ((offers keyId issuedAt expiresAt approvals).map Stored.tx)).length <
          ((approvals.map Approval.txHash).toFinset \ s.held).card -
            (st.capacity - s.entries.entries.length) then (false, s)
      else (true, (changes s now (offers keyId issuedAt expiresAt approvals)).foldl State.upsert
        ((st.evicted s now keyId issuedAt expiresAt approvals).foldl State.remove s)) := by
  have hadded := length_added (s := s) (nodup_offers keyId issuedAt expiresAt approvals)
  rw [toFinset_offers] at hadded
  unfold Store.putAll
  simp only [hadded, victims_eq h]
  generalize hmissing : ((approvals.map Approval.txHash).toFinset \ s.held).card = missing
  have hneeded : ((missing : Int) - (st.capacity - s.entries.entries.length)).toNat =
      missing - (st.capacity - s.entries.entries.length) := by omega
  by_cases hshort : 0 < (missing : Int) - (st.capacity - s.entries.entries.length)
  · rw [if_pos hshort, hneeded]
    have hlen : ∀ (xs : List Hash), (((xs.take (missing -
        (st.capacity - s.entries.entries.length))).length : Int) <
        (missing : Int) - (st.capacity - s.entries.entries.length) ↔
        xs.length < missing - (st.capacity - s.entries.entries.length)) := by
      intro xs
      rw [length_take]
      omega
    simp only [hlen, Store.evicted, hmissing]
  · have hzero : missing - (st.capacity - s.entries.entries.length) = 0 := by omega
    rw [if_neg hshort, Store.evicted, hmissing, hzero, if_neg (Nat.not_lt_zero _), take_zero]
    rfl

theorem putAll_refused (h : Indexed s) (hcap : s.entries.entries.length ≤ st.capacity)
    (hno : (st.putAll s now keyId issuedAt expiresAt approvals).1 = false) :
    (st.putAll s now keyId issuedAt expiresAt approvals).2 = s := by
  rw [putAll_eq h hcap] at hno ⊢
  split at hno
  · rename_i hfew
    rw [if_pos hfew]
  · cases hno

theorem evicted_unnamed (h : Indexed s)
    (hmem : tx ∈ st.evicted s now keyId issuedAt expiresAt approvals) :
    tx ∉ approvals.map Approval.txHash ∧ ∃ e, s.entry tx = some e := by
  obtain ⟨hkeep, hentry⟩ := reached_of_mem h (mem_of_mem_take hmem)
  rw [mem_offers_tx] at hkeep
  exact ⟨hkeep, hentry⟩

section Accepted

variable (h : Indexed s) (hcap : s.entries.entries.length ≤ st.capacity)
  (hok : (st.putAll s now keyId issuedAt expiresAt approvals).1 = true)

include h hcap hok

theorem putAll_accepted :
    (st.evicted s now keyId issuedAt expiresAt approvals).length =
        ((approvals.map Approval.txHash).toFinset \ s.held).card -
          (st.capacity - s.entries.entries.length) ∧
      (st.putAll s now keyId issuedAt expiresAt approvals).2 =
        (changes s now (offers keyId issuedAt expiresAt approvals)).foldl State.upsert
          ((st.evicted s now keyId issuedAt expiresAt approvals).foldl State.remove s) := by
  rw [putAll_eq h hcap] at hok ⊢
  split at hok
  · cases hok
  · rename_i henough
    rw [if_neg henough]
    refine ⟨?_, rfl⟩
    rw [Store.evicted, length_take]
    omega

theorem entry_putAll (tx : Hash) :
    (st.putAll s now keyId issuedAt expiresAt approvals).2.entry tx =
      if tx ∈ st.evicted s now keyId issuedAt expiresAt approvals then none
      else
        match offerOf (changes s now (offers keyId issuedAt expiresAt approvals)) tx with
        | some x => some ⟨x, s.stateFor tx⟩
        | none => s.entry tx := by
  have hnodup := nodup_offers keyId issuedAt expiresAt approvals
  rw [(putAll_accepted h hcap hok).2, entry_upserts (nodup_changes hnodup), entry_removes]
  by_cases hmem : tx ∈ st.evicted s now keyId issuedAt expiresAt approvals
  · have hunnamed : offerOf (offers keyId issuedAt expiresAt approvals) tx = none := by
      rw [offerOf_eq_none, mem_offers_tx]
      exact (evicted_unnamed h hmem).1
    simp only [if_pos hmem, offerOf_changes hnodup, hunnamed, Option.filter_none]
  · have hsame := (entry_removes (st.evicted s now keyId issuedAt expiresAt approvals) s tx).trans
      (if_neg hmem)
    simp only [if_neg hmem, stateFor_congr hsame (pooled_removes s)]

/-- What an accepted batch leaves for a transaction it names: the better of its offer and of
what was stored, if that had not expired. -/
theorem get_putAll {x : Stored}
    (hx : offerOf (offers keyId issuedAt expiresAt approvals) tx = some x) :
    ApprovalStore.get (st.putAll s now keyId issuedAt expiresAt approvals).2 tx =
      keepBest Stored.rank ((ApprovalStore.get s tx).filter fun old => old.usableAt now) x := by
  have hnodup := nodup_offers keyId issuedAt expiresAt approvals
  have hnamed : tx ∉ st.evicted s now keyId issuedAt expiresAt approvals := by
    intro hmem
    apply (evicted_unnamed h hmem).1
    rw [← mem_offers_tx keyId issuedAt expiresAt, mem_map]
    exact ⟨x, (offerOf_eq_some hnodup).mp hx⟩
  simp only [ApprovalStore.get, entry_putAll h hcap hok, if_neg hnamed, offerOf_changes hnodup, hx]
  cases he : s.entry tx with
  | none => rfl
  | some e =>
    cases husable : e.stored.usableAt now with
    | false => simp [husable, keepBest, Option.filter_some]
    | true =>
      by_cases hle : x.rank ≤ e.stored.rank
      · have hkeep : rank x e.stored ≠ .gt := by
          rw [Ne, rank_eq_gt]
          exact not_lt.mpr hle
        simp [husable, keepBest, hle, hkeep, Option.filter_some]
      · have hreplace : rank x e.stored = .gt := rank_eq_gt.mpr (not_le.mp hle)
        simp [husable, keepBest, hle, hreplace, Option.filter_some]

theorem held_putAll :
    (st.putAll s now keyId issuedAt expiresAt approvals).2.held =
      s.held \ (st.evicted s now keyId issuedAt expiresAt approvals).toFinset ∪
        (approvals.map Approval.txHash).toFinset := by
  have hnodup := nodup_offers keyId issuedAt expiresAt approvals
  ext tx
  rw [mem_held, entry_putAll h hcap hok, Finset.mem_union, Finset.mem_sdiff, mem_toFinset,
    mem_toFinset, mem_held, ← mem_offers_tx keyId issuedAt expiresAt]
  by_cases hmem : tx ∈ st.evicted s now keyId issuedAt expiresAt approvals
  · have hunnamed := (evicted_unnamed h hmem).1
    rw [← mem_offers_tx keyId issuedAt expiresAt] at hunnamed
    simp [hmem, hunnamed]
  · rw [if_neg hmem]
    cases hchange : offerOf (changes s now (offers keyId issuedAt expiresAt approvals)) tx with
    | some x =>
      rw [offerOf_changes hnodup, Option.filter_eq_some_iff, offerOf_eq_some hnodup] at hchange
      refine iff_of_true ⟨_, rfl⟩ (.inr ?_)
      rw [mem_map]
      exact ⟨x, hchange.1⟩
    | none =>
      simp only [hmem, not_false_eq_true, and_true]
      constructor
      · exact .inl
      · rintro (hentry | hnamed)
        · exact hentry
        · -- a transaction that is named and does not change has an entry
          by_contra hnone
          obtain ⟨x, hx, rfl⟩ := mem_map.mp hnamed
          have hentry : s.entry x.tx = none := by
            rw [Option.eq_none_iff_forall_not_mem]
            exact fun e he => hnone ⟨e, he⟩
          have hoffer : offerOf (offers keyId issuedAt expiresAt approvals) x.tx = some x :=
            (offerOf_eq_some hnodup).mpr ⟨hx, rfl⟩
          rw [offerOf_changes hnodup, hoffer, hentry] at hchange
          cases hchange

end Accepted

theorem capacity_putAll (h : Consistent s) (hcap : s.entries.entries.length ≤ st.capacity) :
    (st.putAll s now keyId issuedAt expiresAt approvals).2.entries.entries.length ≤
      st.capacity := by
  cases hanswer : (st.putAll s now keyId issuedAt expiresAt approvals).1 with
  | false =>
    rw [putAll_refused h.indexed hcap hanswer]
    exact hcap
  | true =>
    have hnodup : (st.evicted s now keyId issuedAt expiresAt approvals).Nodup :=
      (nodup_candidates h.indexed).sublist (take_sublist _ _)
    rw [← card_held, held_putAll h.indexed hcap hanswer]
    rw [← card_held] at hcap
    apply card_after_eviction hcap
    · intro tx hmem
      obtain ⟨hunnamed, hentry⟩ := evicted_unnamed h.indexed (mem_toFinset.mp hmem)
      rw [Finset.mem_sdiff, mem_held, mem_toFinset]
      exact ⟨hentry, hunnamed⟩
    · rw [card_held] at hcap ⊢
      rw [toFinset_card_of_nodup hnodup, (putAll_accepted h.indexed hcap hanswer).1]
      omega

theorem consistent_putAll (h : Consistent s) (hcap : s.entries.entries.length ≤ st.capacity) :
    Consistent (st.putAll s now keyId issuedAt expiresAt approvals).2 := by
  cases hanswer : (st.putAll s now keyId issuedAt expiresAt approvals).1 with
  | false =>
    rw [putAll_refused h.indexed hcap hanswer]
    exact h
  | true =>
    rw [(putAll_accepted h.indexed hcap hanswer).2]
    exact consistent_upserts ((Follows.foldl follows_remove s _).consistent h) _

end Answer

end PrivacySuite.Besu.ApprovalStore
