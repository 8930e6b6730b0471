import PrivacySuite.Reth.ApprovalRuns

/-!
# Histories of the Reth store

Why an approval went, and why a transaction was dropped, told from the calls before: a mark
of an entry is traced back to the call that set it.
-/

namespace PrivacySuite.Reth.Approvals

open Codec NodeApproval Data List

/-! ## Inclusions -/

/-- A call recorded that the block included the transaction, and none since that the block
left the chain. -/
inductive Recorded (hash : Hash) (block : UInt64) : List Op → Prop where
  | here {ops : List Op} {hashes : List Hash} {now : Now} (hmem : hash ∈ hashes) :
      Recorded hash block (ops ++ [.included block hashes now])
  | earlier {ops : List Op} {op : Op} (h : Recorded hash block ops)
      (hkept : ∀ hashes, op = .reverted block hashes → hash ∉ hashes) :
      Recorded hash block (ops ++ [op])

section Changes

variable {st : Store} {first : Option Instant} {fin : UInt64} {op : Op} {hash : Hash}
  {x y : Option Entry}

theorem Moves.included_from {e : Entry} (h : Moves st first fin op hash x (some e))
    {block : UInt64} (hblock : e.included = some block) :
    (∃ e₀, x = some e₀ ∧ e₀.included = some block) ∨
      ∃ hashes now, op = .included block hashes now ∧ hash ∈ hashes := by
  cases h with
  | arrives | stored | unmined => cases hblock
  | mined hmem happroval hfinal =>
    cases hblock
    exact .inr ⟨_, _, rfl, hmem⟩
  | _ => exact .inl ⟨_, rfl, hblock⟩

theorem Moves.from_none (h : Moves st first fin op hash none y) :
    (∃ arrived now, op = .seenAt hash arrived now) ∨ ∃ batch now, op = .putBatch batch now := by
  cases h with
  | arrives => exact .inl ⟨_, _, rfl⟩
  | stored => exact .inr ⟨_, _, rfl⟩

/-- The call makes an inclusion final: it reports a transaction in a final block, or the block
an entry is marked with is final. -/
def MadeFinal (fin : UInt64) (op : Op) (hash : Hash) (e : Entry) : Prop :=
  (∃ block hashes now, op = .included block hashes now ∧ hash ∈ hashes ∧ block ≤ fin) ∨
    ∃ block b, op = .finalized block ∧ e.included = some b ∧ b ≤ fin

/-- Outside of a batch, a valid approval goes only with an inclusion that is final. -/
theorem Moves.approval_kept {e : Entry} {a : Approval} (h : Moves st first fin op hash (some e) y)
    (ha : e.approval = some a) (hop : ∀ batch now, op ≠ .putBatch batch now)
    (hlive : ∀ now limit inPool, op = .sweep now limit inPool → now.ms < a.expiresAt) :
    (∃ e', y = some e' ∧ e'.approval = some a ∧ ∀ block, op ≠ .finalized block) ∨
      y = none ∧ MadeFinal fin op hash e := by
  cases h with
  | joins | mined | unmined | rested | leaves => exact .inl ⟨_, rfl, ha, nofun⟩
  | evicted | emptied | replaced => exact absurd rfl (hop _ _)
  | windowed happroval | minedElsewhere _ happroval => cases happroval.symm.trans ha
  | minedFinal hmem happroval hfinal => exact .inr ⟨rfl, .inl ⟨_, _, _, rfl, hmem, hfinal⟩⟩
  | released happroval hincluded hfinal => exact .inr ⟨rfl, .inr ⟨_, _, rfl, hincluded, hfinal⟩⟩
  | timedOut _ happroval | waits _ happroval | forgotten _ happroval =>
    exact absurd (happroval a ha) (UInt64.not_le.mpr (hlive _ _ _ rfl))

end Changes

section Inclusions

variable {s : State} {hash : Hash} {block : UInt64}

/-- The transaction is not marked as included in the block. -/
def NotIncluded (s : State) (hash : Hash) (block : UInt64) : Prop :=
  ∀ e, s.entry hash = some e → e.included ≠ some block

theorem notIncluded_revertOne {hash' : Hash} (h : hash = hash' ∨ NotIncluded s hash block) :
    NotIncluded (Store.revertOne block s hash') hash block := by
  intro e he
  unfold Store.revertOne at he
  split at he
  · by_cases hsame : hash = hash'
    · subst hsame
      rw [entry_modify] at he
      obtain ⟨e₀, -, rfl⟩ := Option.map_eq_some_iff.mp he
      nofun
    · rw [(edits_modify _).frame hash hsame] at he
      exact h.resolve_left hsame e he
  · rename_i hother
    rcases h with rfl | h
    · intro hblock
      exact hother (Option.bind_eq_some_iff.mpr ⟨e, he, hblock⟩)
    · exact h e he

/-- Behind `reverted` no transaction it names is marked as included in the block. -/
theorem notIncluded_reverted {hashes : List Hash}
    (h : hash ∈ hashes ∨ NotIncluded s hash block) :
    NotIncluded (Store.reverted s block hashes) hash block := by
  unfold Store.reverted
  induction hashes generalizing s with
  | nil => exact h.resolve_left (not_mem_nil)
  | cons x hashes ih =>
    rw [foldl_cons]
    apply ih
    rcases h with hmem | h
    · rcases mem_cons.mp hmem with rfl | hmem
      · exact .inr (notIncluded_revertOne (.inl rfl))
      · exact .inl hmem
    · exact .inr (notIncluded_revertOne (.inr h))

theorem recorded_of_included (st : Store) (ops : List Op) {e : Entry}
    (he : (st.run ops).entry hash = some e) (hblock : e.included = some block) :
    Recorded hash block ops := by
  induction ops using List.reverseRecOn generalizing e with
  | nil => cases he
  | append_singleton ops op ih =>
    rw [Store.run_concat] at he
    rcases entry_traced_or st (indexed_run st ops) (fun e => e.included = some block)
      (fun x e hmove h => hmove.included_from h) he hblock with
      ⟨e₀, he₀, hblock₀⟩ | ⟨hashes, now, rfl, hmem⟩
    · refine .earlier (ih he₀ hblock₀) ?_
      rintro hashes rfl hmem
      exact notIncluded_reverted (.inl hmem) e he hblock
    · exact .here hmem

end Inclusions

/-! ## Approvals that go -/

section Losses

variable (st : Store) {s : State} {hash : Hash} {a : Approval}

/-- Outside of a batch, a valid approval is kept or goes with an inclusion that is final. -/
theorem approval_apply (hs : Indexed s) (op : Op) {e : Entry} (he : s.entry hash = some e)
    (ha : e.approval = some a) (hop : ∀ batch now, op ≠ .putBatch batch now)
    (hlive : ∀ now limit inPool, op = .sweep now limit inPool → now.ms < a.expiresAt) :
    (st.apply s op).approvalOf hash = some a ∨
      (st.apply s op).entry hash = none ∧ MadeFinal (op.base s).finalized op hash e := by
  have hkept := @apply_induction st s hs op hash (fun x => (∃ e', x = some e' ∧
    e'.approval = some a ∧ ∀ block, op = .finalized block → e' = e) ∨
      x = none ∧ MadeFinal (op.base s).finalized op hash e) (.inl ⟨e, he, ha, fun _ _ => rfl⟩) ?_
  · rcases hkept with ⟨e', he', ha', -⟩ | hgone
    · exact .inl (approvalOf_eq_some.mpr ⟨e', he', ha'⟩)
    · exact .inr hgone
  · intro x y hmove hx
    rcases hx with ⟨e', rfl, ha', hsame⟩ | ⟨rfl, hreason⟩
    · rcases hmove.approval_kept ha' hop hlive with ⟨e'', rfl, ha'', hno⟩ | ⟨rfl, hreason⟩
      · exact .inl ⟨e'', rfl, ha'', fun block hblock => absurd hblock (hno block)⟩
      · refine .inr ⟨rfl, hreason.imp id ?_⟩
        rintro ⟨block, b, hblock, hincluded, hfinal⟩
        exact ⟨block, b, hblock, hsame block hblock ▸ hincluded, hfinal⟩
    · -- nothing brings the entry back: the call is neither a report of the pool nor a batch
      rcases hmove.from_none with ⟨arrived, now, rfl⟩ | ⟨batch, now, hbatch⟩
      · rcases hreason with ⟨_, _, _, hcall, -⟩ | ⟨_, _, hcall, -⟩ <;> cases hcall
      · exact absurd hbatch (hop batch now)

/-- What a batch makes of a valid approval. -/
theorem approval_putBatch (hs : Indexed s) (batch : List Approval) {now : Now} {e : Entry}
    (he : s.entry hash = some e) (ha : e.approval = some a) (hlive : now.ms < a.expiresAt) :
    let after := (st.putBatch s batch now).2
    after.approvalOf hash = some a ∨
      (∃ b ∈ batch, b.txHash = hash ∧ rank a < rank b ∧ after.approvalOf hash = some b) ∨
      hash ∉ batch.map Approval.txHash ∧ e.pooled = none ∧
        st.grace.toNat ≤ State.age now.ms a.issuedAt.toNat ∧ after.approvalOf hash = none := by
  intro after
  have hbefore : s.approvalOf hash = some a := approvalOf_eq_some.mpr ⟨e, he, ha⟩
  by_cases hok : (st.putBatch s batch now).1 = .ok ()
  · have hafter := approvalOf_putBatch st hs hok hash
    by_cases hmem : hash ∈ st.evicted s batch now
    · rw [if_pos hmem] at hafter
      obtain ⟨hunnamed, e', a', he', ha', hgoes⟩ := mem_evicted st hs hmem
      obtain rfl := Option.some.inj (he.symm.trans he')
      obtain rfl := Option.some.inj (ha.symm.trans ha')
      obtain ⟨hpooled, hold⟩ := hgoes.resolve_left (UInt64.not_le.mpr hlive)
      exact .inr (.inr ⟨hunnamed, hpooled, hold, hafter⟩)
    · rw [if_neg hmem, hbefore] at hafter
      have hsome : ((batch.filter fun b => b.txHash = hash).foldl (keepBest rank)
        (some a)).isSome = true := foldl_keepBest_isSome (.inl rfl)
      obtain ⟨b, hb⟩ := Option.isSome_iff_exists.mp hsome
      obtain ⟨hfrom, -, hheld⟩ := foldl_keepBest hb
      rcases hheld a rfl with rfl | hrank
      · exact .inl (hafter.trans hb)
      · rcases hfrom with hoffered | hsame
        · obtain ⟨hmem, hhash⟩ := mem_filter.mp hoffered
          exact .inr (.inl ⟨b, hmem, of_decide_eq_true hhash, hrank, hafter.trans hb⟩)
        · obtain rfl := Option.some.inj hsame
          exact absurd hrank (lt_irrefl _)
  · have hsame : after = s := congrArg Prod.snd (putBatch_refused st hs hok)
    exact .inl (hsame ▸ hbefore)

end Losses

/-- The calls a reorganisation above the finalized height makes. -/
def Reorganises (fin : UInt64) (op : Op) : Prop :=
  (∃ block hashes now, op = .included block hashes now ∧ fin < block) ∨
    ∃ block hashes, op = .reverted block hashes

theorem approval_reorganises (st : Store) (ops : List Op) {hash : Hash} {a : Approval}
    (ha : (st.run ops).approvalOf hash = some a) {more : List Op}
    (hmore : ∀ op ∈ more, Reorganises (st.run ops).finalized op) :
    (st.run (ops ++ more)).approvalOf hash = some a ∧
      (st.run (ops ++ more)).finalized = (st.run ops).finalized := by
  induction more using List.reverseRecOn with
  | nil =>
    rw [append_nil]
    exact ⟨ha, rfl⟩
  | append_singleton more op ih =>
    obtain ⟨hkept, hfin⟩ := ih fun op hop => hmore op (mem_append_left _ hop)
    have hop := hmore op (mem_append_right _ mem_cons_self)
    have hs := indexed_run st (ops ++ more)
    obtain ⟨e, he, hea⟩ := approvalOf_eq_some.mp hkept
    rw [← append_assoc, Store.run_concat, finalized_apply st hs]
    rcases hop with ⟨block, hashes, now, rfl, hlt⟩ | ⟨block, hashes, rfl⟩
    · refine ⟨?_, hfin⟩
      rcases approval_apply st hs (.included block hashes now) he hea (by simp) (by simp) with
        h | ⟨-, hreason⟩
      · exact h
      · rcases hreason with ⟨b, hs', n, hcall, -, hle⟩ | ⟨b, c, hcall, -⟩
        · cases hcall
          rw [← hfin] at hlt
          exact absurd hle (UInt64.not_le.mpr hlt)
        · cases hcall
    · refine ⟨?_, hfin⟩
      rcases approval_apply st hs (.reverted block hashes) he hea (by simp) (by simp) with
        h | ⟨-, hreason⟩
      · exact h
      · rcases hreason with ⟨b, hs', n, hcall, -⟩ | ⟨b, c, hcall, -⟩ <;> cases hcall

/-- A stored approval that is valid when a call is made is there behind it, unless the call
is a batch with an approval of greater rank in its place, or a batch that evicts it, its
transaction not pooled and it itself at least the grace period old, or the block its
transaction was recorded in is final. A reorganisation above the finalized height keeps it
however long it is. -/
theorem approval_goes_for_a_reason (st : Store) (ops : List Op) (hash : Hash) (a : Approval)
    (hstored : (st.run ops).approvalOf hash = some a) :
    (∀ op, (∀ now, op.now = some now → now.ms < a.expiresAt) →
      (st.run (ops ++ [op])).approvalOf hash ≠ some a →
        (∃ batch now b, op = .putBatch batch now ∧ b ∈ batch ∧ b.txHash = hash ∧
          rank a < rank b ∧ (st.run (ops ++ [op])).approvalOf hash = some b) ∨
        (∃ batch now e, op = .putBatch batch now ∧ hash ∉ batch.map Approval.txHash ∧
          (st.run ops).entry hash = some e ∧ e.pooled = none ∧
          st.grace.toNat ≤ State.age now.ms a.issuedAt.toNat ∧
          (st.run (ops ++ [op])).approvalOf hash = none) ∨
        ∃ block, Recorded hash block (ops ++ [op]) ∧
          block ≤ (st.run (ops ++ [op])).finalized ∧
          (st.run (ops ++ [op])).approvalOf hash = none) ∧
      ∀ more, (∀ op ∈ more, Reorganises (st.run ops).finalized op) →
        (st.run (ops ++ more)).approvalOf hash = some a := by
  have hs := indexed_run st ops
  obtain ⟨e, he, ha⟩ := approvalOf_eq_some.mp hstored
  refine ⟨?_, fun more hmore => (approval_reorganises st ops hstored hmore).1⟩
  intro op hlive hlost
  rw [Store.run_concat] at hlost ⊢
  by_cases hbatch : ∃ batch now, op = .putBatch batch now
  · obtain ⟨batch, now, rfl⟩ := hbatch
    rcases approval_putBatch st hs batch he ha (hlive now rfl) with
      h | ⟨b, hb, hhash, hrank, hafter⟩ | ⟨hunnamed, hpooled, hold, hafter⟩
    · exact absurd h hlost
    · exact .inl ⟨batch, now, b, rfl, hb, hhash, hrank, hafter⟩
    · exact .inr (.inl ⟨batch, now, e, rfl, hunnamed, he, hpooled, hold, hafter⟩)
  · have hop : ∀ batch now, op ≠ .putBatch batch now := fun batch now h => hbatch ⟨batch, now, h⟩
    have hsweep : ∀ now limit inPool, op = .sweep now limit inPool → now.ms < a.expiresAt := by
      rintro now limit inPool rfl
      exact hlive now rfl
    rcases approval_apply st hs op he ha hop hsweep with h | ⟨hnone, hreason⟩
    · exact absurd h hlost
    · have hgone : (st.apply (st.run ops) op).approvalOf hash = none := by
        rw [State.approvalOf, hnone]
        rfl
      rcases hreason with ⟨block, hashes, now, rfl, hmem, hfinal⟩ | ⟨block, b, rfl, hb, hfinal⟩
      · refine .inr (.inr ⟨block, .here hmem, ?_, hgone⟩)
        rw [finalized_apply st hs]
        exact hfinal
      · refine .inr (.inr ⟨b, .earlier (recorded_of_included st ops he hb) (by simp), ?_, hgone⟩)
        rw [finalized_apply st hs]
        exact hfinal

theorem approval_survives_reorganisation :
    ((⟨0, 10, 0⟩ : Store).run ([.putBatch [sampleApproval 1 1000 2000] ⟨0, 1500⟩] ++
      [.included 5 [repeatByte 1] ⟨0, 1600⟩, .reverted 5 [repeatByte 1]])).approvalOf
        (repeatByte 1) = some (sampleApproval 1 1000 2000) := by
  apply (approval_goes_for_a_reason ⟨0, 10, 0⟩ [.putBatch [sampleApproval 1 1000 2000] ⟨0, 1500⟩]
    (repeatByte 1) (sampleApproval 1 1000 2000) rfl).2
  intro op hop
  rcases mem_cons.mp hop with rfl | hop
  · exact .inl ⟨5, _, _, rfl, by decide⟩
  · rw [mem_singleton] at hop
    exact .inr ⟨5, _, hop⟩

end PrivacySuite.Reth.Approvals
