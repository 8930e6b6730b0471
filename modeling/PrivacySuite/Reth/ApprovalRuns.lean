import PrivacySuite.Reth.ApprovalAdmission

/-!
# Runs of the Reth store

What holds after every sequence of calls: the store is consistent and within its capacity,
and every entry has the timer it should have. Each fact is first one about a change in the
life of an entry (`Moves`), then about a call, and then, by induction, about a run.
-/

namespace PrivacySuite.Reth.Approvals

open Codec NodeApproval Data

/-! ## Waiting entries -/

/-- An entry without an approval is that of a pooled transaction, and its timer the end of
the wait. -/
def Settled (st : Store) (first : Option Instant) (e : Entry) : Prop :=
  e.approval = none → ∃ arrived, e.pooled = some arrived ∧ e.deadline = st.waitEnd first arrived

section Changes

variable {st : Store} {first : Option Instant} {fin : UInt64} {op : Op} {hash : Hash}
  {x : Option Entry} {e : Entry}

theorem Moves.settled (h : Moves st first fin op hash x (some e))
    (hx : ∀ e ∈ x, Settled st first e) : Settled st first e := by
  intro hnone
  cases h with
  | arrives => exact ⟨_, rfl, rfl⟩
  | joins hpooled happroval | mined hmem happroval hfinal | rested happroval hlive hdeadline
  | leaves happroval hlive hincluded hgone =>
    cases happroval.symm.trans hnone
  | emptied hunnamed happroval hpooled hexpired | windowed happroval hpooled
  | waits hpooled happroval =>
    exact ⟨_, hpooled, rfl⟩
  | stored hmem | replaced hmem hrank hdeadline => cases hnone
  | unmined hmem hincluded =>
    have hkept := hx _ (Option.mem_some_self _)
    exact hkept hnone

theorem Moves.deadline_le (h : Moves st first fin op hash x (some e)) {now : Now}
    (hnow : op.now = some now) {a : Approval} (ha : e.approval = some a) :
    e.deadline ≤ now.instantOf a.expiresAt := by
  cases h with
  | arrives | emptied | waits => cases ha
  | joins hpooled happroval =>
    cases hnow
    cases happroval.symm.trans ha
    exact min_le_left _ _
  | stored hmem =>
    cases hnow
    cases ha
    exact le_refl _
  | replaced hmem hrank hdeadline =>
    cases hnow
    cases ha
    exact hdeadline
  | windowed happroval hpooled => cases happroval.symm.trans ha
  | mined _ happroval | leaves happroval =>
    cases hnow
    cases happroval.symm.trans ha
    exact le_refl _
  | unmined hmem hincluded => cases hnow
  | rested happroval hlive hdeadline =>
    cases hnow
    cases happroval.symm.trans ha
    exact hdeadline

theorem Moves.of_no_clock (h : Moves st first fin op hash x (some e)) (hnow : op.now = none) :
    ∃ e₀, x = some e₀ ∧ e₀.approval = e.approval ∧ e₀.deadline = e.deadline := by
  cases h with
  | unmined hmem hincluded => exact ⟨_, rfl, rfl, rfl⟩
  | _ => cases hnow

theorem Moves.approval_from (h : Moves st first fin op hash x (some e))
    (hop : ∀ batch now, op ≠ .putBatch batch now) {a : Approval} (ha : e.approval = some a) :
    ∃ e₀, x = some e₀ ∧ e₀.approval = some a := by
  cases h with
  | arrives | waits => cases ha
  | emptied | stored | replaced => exact absurd rfl (hop _ _)
  | _ => exact ⟨_, rfl, ha⟩

end Changes

section Calls

variable {st : Store} {s : State}

theorem firstStatus_apply (st : Store) (hs : Indexed s) (op : Op) :
    (st.apply s op).firstStatus = (op.base s).firstStatus :=
  (evolves_apply st hs op).firstStatus

theorem finalized_apply (st : Store) (hs : Indexed s) (op : Op) :
    (st.apply s op).finalized = (op.base s).finalized :=
  (evolves_apply st hs op).finalized

/-- The entry under the hash, if there is one, is settled. -/
def SettledAt (st : Store) (s : State) (hash : Hash) : Prop :=
  ∀ e, s.entry hash = some e → Settled st s.firstStatus e

theorem settledAt_setWindow {p : Hash × Instant} {hash : Hash} (hp : Waits s p)
    (h : hash = p.1 ∨ SettledAt st s hash) : SettledAt st (st.setWindow s p) hash := by
  have hedit : Edits s (st.setWindow s p) p.1 := edits_modify _
  intro e he
  rw [hedit.firstStatus]
  by_cases hsame : hash = p.1
  · subst hsame
    obtain ⟨e₀, hentry, happroval, hpooled⟩ := hp
    rw [Store.setWindow, entry_modify, hentry] at he
    obtain rfl := Option.some.inj he
    exact fun _ => ⟨p.2, hpooled, rfl⟩
  · rw [hedit.frame hash hsame] at he
    exact h.resolve_left hsame e he

/-- The loop of `status_seen` settles the entries it goes through. -/
theorem settledAt_setWindows {ps : List (Hash × Instant)} {hash : Hash}
    (hps : ∀ p ∈ ps, Waits s p) (h : (∃ p ∈ ps, hash = p.1) ∨ SettledAt st s hash) :
    SettledAt st (ps.foldl st.setWindow s) hash := by
  induction ps generalizing s with
  | nil =>
    rcases h with ⟨p, hp, -⟩ | h
    · cases hp
    · exact h
  | cons p ps ih =>
    have hp : Waits s p := hps p List.mem_cons_self
    apply ih
    · intro q hq
      exact waits_setWindow (hps q (List.mem_cons_of_mem p hq))
    · rcases h with ⟨q, hq, rfl⟩ | h
      · rcases List.mem_cons.mp hq with rfl | hq
        · exact .inr (settledAt_setWindow hp (.inl rfl))
        · exact .inl ⟨q, hq, rfl⟩
      · exact .inr (settledAt_setWindow hp (.inr h))

theorem settledAt_statusSeen (h : ∀ hash, SettledAt st s hash) (now : Now) (hash : Hash) :
    SettledAt st (st.statusSeen s now) hash := by
  unfold Store.statusSeen
  split
  · exact h hash
  · apply settledAt_setWindows
    · intro p hp
      exact mem_waiting.mp hp
    · by_cases hwaits : ∃ arrived, Waits s (hash, arrived)
      · obtain ⟨arrived, hwaits⟩ := hwaits
        exact .inl ⟨(hash, arrived), mem_waiting.mpr hwaits, rfl⟩
      · -- what does not wait has an approval, and nothing is asked of its timer
        refine .inr ?_
        intro e he hnone
        obtain ⟨arrived, hpooled, -⟩ := h hash e he hnone
        exact absurd ⟨arrived, e, he, hnone, hpooled⟩ hwaits

theorem settledAt_apply (hs : Indexed s) (h : ∀ hash, SettledAt st s hash) (op : Op)
    (hash : Hash) : SettledAt st (st.apply s op) hash := by
  by_cases hop : (op.base s).firstStatus = s.firstStatus
  · unfold SettledAt
    rw [firstStatus_apply st hs, hop]
    apply apply_induction st hs (fun x => ∀ e, x = some e → Settled st s.firstStatus e) (h hash)
    rintro x _ hmove hx e rfl
    rw [hop] at hmove
    exact hmove.settled hx
  · cases op with
    | statusSeen now => exact settledAt_statusSeen h now hash
    | _ => exact absurd rfl hop

theorem approvals_apply_le (hs : Indexed s) {op : Op}
    (hop : ∀ batch now, op ≠ .putBatch batch now) :
    (st.apply s op).approvals ≤ s.approvals := by
  rw [← hs.card_held, ← (indexed_apply st hs op).card_held]
  apply Finset.card_le_card
  intro hash hmem
  obtain ⟨a, ha⟩ := mem_held.mp hmem
  obtain ⟨e, he, ha⟩ := approvalOf_eq_some.mp ha
  obtain ⟨e₀, he₀, ha₀⟩ := entry_traced st hs (fun e => e.approval = some a)
    (fun x e hmove ha => hmove.approval_from hop ha) he ha
  exact mem_held.mpr ⟨a, approvalOf_eq_some.mpr ⟨e₀, he₀, ha₀⟩⟩

theorem capacity_apply (hs : Indexed s) (hcap : s.approvals ≤ st.capacity) (op : Op) :
    (st.apply s op).approvals ≤ st.capacity := by
  cases op with
  | putBatch batch now => exact approvals_putBatch st hs hcap batch now
  | _ => exact (approvals_apply_le hs (by intro _ _ h; cases h)).trans hcap

end Calls

/-! ## Runs -/

/-- The last change of an entry by a call with a reading of the clocks was made with this
reading. -/
inductive ChangedAt (st : Store) (hash : Hash) : List Op → Now → Prop where
  | here {ops : List Op} {op : Op} {now : Now} (hnow : op.now = some now)
      (hchange : (st.run (ops ++ [op])).entry hash ≠ (st.run ops).entry hash) :
      ChangedAt st hash (ops ++ [op]) now
  | earlier {ops : List Op} {op : Op} {now : Now} (h : ChangedAt st hash ops now)
      (hsame : op.now = none ∨ (st.run (ops ++ [op])).entry hash = (st.run ops).entry hash) :
      ChangedAt st hash (ops ++ [op]) now

section Runs

variable (st : Store)

theorem settledAt_run (ops : List Op) (hash : Hash) : SettledAt st (st.run ops) hash := by
  induction ops using List.reverseRecOn generalizing hash with
  | nil =>
    intro e he
    cases he
  | append_singleton ops op ih =>
    rw [Store.run_concat]
    exact settledAt_apply (indexed_run st ops) ih op hash

theorem capacity_run (ops : List Op) : (st.run ops).approvals ≤ st.capacity := by
  induction ops using List.reverseRecOn with
  | nil => exact Nat.zero_le _
  | append_singleton ops op ih =>
    rw [Store.run_concat]
    exact capacity_apply (indexed_run st ops) ih op

theorem deadline_run (ops : List Op) {hash : Hash} {e : Entry} {a : Approval}
    (he : (st.run ops).entry hash = some e) (ha : e.approval = some a) :
    ∃ now, ChangedAt st hash ops now ∧ e.deadline ≤ now.instantOf a.expiresAt := by
  induction ops using List.reverseRecOn generalizing e with
  | nil => cases he
  | append_singleton ops op ih =>
    cases hnow : op.now with
    | none =>
      rw [Store.run_concat] at he
      obtain ⟨e₀, he₀, happroval, hdeadline⟩ := entry_traced st (indexed_run st ops)
        (fun e₁ => e₁.approval = e.approval ∧ e₁.deadline = e.deadline) (by
          rintro x e₁ hmove ⟨happroval, hdeadline⟩
          obtain ⟨e₀, he₀, happroval₀, hdeadline₀⟩ := hmove.of_no_clock hnow
          exact ⟨e₀, he₀, happroval₀.trans happroval, hdeadline₀.trans hdeadline⟩) he ⟨rfl, rfl⟩
      obtain ⟨now, hchanged, hle⟩ := ih he₀ (happroval.trans ha)
      exact ⟨now, .earlier hchanged (.inl hnow), hdeadline ▸ hle⟩
    | some now =>
      by_cases hsame : (st.run (ops ++ [op])).entry hash = (st.run ops).entry hash
      · obtain ⟨now', hchanged, hle⟩ := ih (hsame.symm.trans he) ha
        exact ⟨now', .earlier hchanged (.inr hsame), hle⟩
      · refine ⟨now, .here hnow hsame, ?_⟩
        have hmoves := entry_apply st (indexed_run st ops) op hash
        rw [← Store.run_concat, he] at hmoves
        rcases Relation.ReflTransGen.cases_tail hmoves with heq | ⟨x, -, hmove⟩
        · exact absurd (he.trans heq) hsame
        · exact hmove.deadline_le hnow ha

/-- The state after every sequence of calls, whatever the clocks read: the indexes hold one
key for each entry that has one, made of its present fields; the count is that of the
approvals, and within the capacity; every entry is that of an approval or of a pooled
transaction; and its timer is the end of its wait, or no later than the expiry of its
approval by the clocks of its last change. -/
theorem run_consistent (ops : List Op) :
    let s := st.run ops
    Indexed s ∧
      s.byExpiry.size = (s.entries.entries.filter fun p => (expiryKey p.1 p.2).isSome).length ∧
      s.evictable.size = (s.entries.entries.filter fun p => (evictableKey p.1 p.2).isSome).length ∧
      s.included.size = (s.entries.entries.filter fun p => (includedKey p.1 p.2).isSome).length ∧
      s.deadlines.size = s.entries.entries.length ∧
      s.approvals = (s.entries.entries.filter fun p => p.2.approval.isSome).length ∧
      s.approvals ≤ st.capacity ∧
      ∀ hash e, s.entry hash = some e →
        (e.approval ≠ none ∨ e.pooled ≠ none) ∧
        (e.approval = none → ∃ arrived, e.pooled = some arrived ∧
          e.deadline = st.waitEnd s.firstStatus arrived) ∧
        ∀ a, e.approval = some a →
          ∃ now, ChangedAt st hash ops now ∧ e.deadline ≤ now.instantOf a.expiresAt := by
  intro s
  have hs : Indexed s := indexed_run st ops
  refine ⟨hs, hs.expiry.size separates_expiryKey, hs.evictable.size separates_evictableKey,
    hs.included.size separates_includedKey, ?_, hs.approvals_eq, capacity_run st ops, ?_⟩
  · exact hs.timers.size_of_all separates_timerKey fun _ _ => rfl
  · intro hash e he
    have hsettled : Settled st s.firstStatus e := settledAt_run st ops hash e he
    refine ⟨?_, hsettled, fun a ha => deadline_run st ops he ha⟩
    by_cases hnone : e.approval = none
    · obtain ⟨arrived, hpooled, -⟩ := hsettled hnone
      exact .inr (by rw [hpooled]; nofun)
    · exact .inl hnone

end Runs

end PrivacySuite.Reth.Approvals
