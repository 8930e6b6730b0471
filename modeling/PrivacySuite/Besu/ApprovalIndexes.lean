import PrivacySuite.Besu.ApprovalStore

/-!
# The indexes of the Besu store

Every change of an entry takes its slots out and puts the new ones in. `Edits` says what
one such change leaves alone; the calls other than `putAll` are sequences of them
(`Follows`) that bring in no new entry.
-/

namespace PrivacySuite.Besu.ApprovalStore

open Codec NodeApproval Data

/-! ## Slots of the entries -/

/-- The slot of an entry in `byExpiry`. -/
def expiryKey (tx : Hash) (e : Entry) : Option Slot := some (slot e.stored.expiresAt tx)

/-- The slot of an entry in the index by issue time of a state. -/
def issueKey (state : Phase) (tx : Hash) (e : Entry) : Option Slot :=
  if e.state = state then some (slot e.stored.issuedAt tx) else none

variable {tx : Hash} {e : Entry} {k : Slot} {state : Phase}

theorem expiryKey_eq_some : expiryKey tx e = some k ↔ slot e.stored.expiresAt tx = k := by
  rw [expiryKey, Option.some.injEq]

theorem issueKey_eq_some :
    issueKey state tx e = some k ↔ e.state = state ∧ slot e.stored.issuedAt tx = k := by
  rw [issueKey]
  split
  · simp [*]
  · simp [*]

theorem expiryKey_tx (h : expiryKey tx e = some k) : k.tx = tx := by
  rw [← expiryKey_eq_some.mp h]
  rfl

theorem issueKey_tx (h : issueKey state tx e = some k) : k.tx = tx := by
  rw [← (issueKey_eq_some.mp h).2]
  rfl

theorem separates_expiryKey : Separates expiryKey := by
  intro tx tx' e e' k h h'
  rw [← expiryKey_tx h, ← expiryKey_tx h']

theorem separates_issueKey (state : Phase) : Separates (issueKey state) := by
  intro tx tx' e e' k h h'
  rw [← issueKey_tx h, ← issueKey_tx h']

structure Indexed (s : State) : Prop where
  expiry : Indexes expiryKey s.entries s.byExpiry
  included : Indexes (issueKey .included) s.entries s.includedByIssue
  orphans : Indexes (issueKey .orphan) s.entries s.orphansByIssue

structure IndexedBut (tx : Hash) (s : State) : Prop where
  expiry : IndexesBut expiryKey tx s.entries s.byExpiry
  included : IndexesBut (issueKey .included) tx s.entries s.includedByIssue
  orphans : IndexesBut (issueKey .orphan) tx s.entries s.orphansByIssue

theorem indexed_init : Indexed State.init := ⟨indexes_empty, indexes_empty, indexes_empty⟩

section Index

variable {s : State} {tx : Hash} {e : Entry}

theorem index_eq (s : State) (tx : Hash) (e : Entry) :
    s.index tx e = { s with
      byExpiry := s.byExpiry.extend (expiryKey tx e)
      includedByIssue := s.includedByIssue.extend (issueKey .included tx e)
      orphansByIssue := s.orphansByIssue.extend (issueKey .orphan tx e) } := by
  unfold State.index
  cases hstate : e.state with
  | pooled | included | orphan => simp [expiryKey, issueKey, hstate, OrdSet.extend]

theorem Indexed.but (h : Indexed s) (hnew : s.entry tx = none) : IndexedBut tx s :=
  ⟨h.expiry.but hnew, h.included.but hnew, h.orphans.but hnew⟩

/-- Taking all slots of an entry out, those it does not have as well, leaves the slots of
the others. -/
theorem Indexed.unindex (h : Indexed s) (he : s.entry tx = some e) :
    IndexedBut tx (s.unindex tx e) := by
  have hissue : ∀ (state : Phase) (ix : OrdSet Slot), Indexes (issueKey state) s.entries ix →
      IndexesBut (issueKey state) tx s.entries (ix.erase (slot e.stored.issuedAt tx)) := by
    intro state ix hix
    show IndexesBut _ tx s.entries (ix.drop (some (slot e.stored.issuedAt tx)))
    apply hix.drop
    · intro e' k he' hk
      obtain rfl := Option.some.inj (he.symm.trans he')
      rw [(issueKey_eq_some.mp hk).2]
    · rintro tx' e' k ⟨⟩ hk
      exact (issueKey_tx hk).symm
  exact ⟨h.expiry.drop_key separates_expiryKey he, hissue _ _ h.included, hissue _ _ h.orphans⟩

theorem IndexedBut.index (h : IndexedBut tx s) (e : Entry) :
    Indexed ((s.putEntry tx e).index tx e) := by
  rw [index_eq]
  exact ⟨h.expiry.insert e, h.included.insert e, h.orphans.insert e⟩

@[simp] theorem entries_index : (s.index tx e).entries = s.entries := by
  rw [index_eq]

@[simp] theorem pooled_index : (s.index tx e).pooled = s.pooled := by
  rw [index_eq]

end Index

/-! ## Changes of one entry -/

/-- `s'` is `s` with a change of the entry of one transaction, its slots kept. -/
structure Edits (s s' : State) (tx : Hash) : Prop where
  frame : ∀ tx', tx' ≠ tx → s'.entry tx' = s.entry tx'
  pooled : s'.pooled = s.pooled
  indexed : Indexed s → Indexed s'

section Changes

variable {s : State} {tx : Hash}

theorem edits_replace {e : Entry} (he : s.entry tx = some e) (e' : Entry) :
    Edits s (((s.unindex tx e).putEntry tx e').index tx e') tx where
  frame tx' hne := by
    rw [State.entry, entries_index]
    exact AList.lookup_insert_ne hne
  pooled := by
    rw [pooled_index]
    rfl
  indexed h := (h.unindex he).index e'

theorem edits_putEntry (hnew : s.entry tx = none) (e : Entry) :
    Edits s ((s.putEntry tx e).index tx e) tx where
  frame tx' hne := by
    rw [State.entry, entries_index]
    exact AList.lookup_insert_ne hne
  pooled := by
    rw [pooled_index]
    rfl
  indexed h := (h.but hnew).index e

theorem edits_refl (s : State) (tx : Hash) : Edits s s tx := ⟨fun _ _ => rfl, rfl, id⟩

theorem edits_remove (s : State) (tx : Hash) : Edits s (s.remove tx) tx := by
  unfold State.remove
  cases he : s.entry tx with
  | none => exact edits_refl s tx
  | some e =>
    refine ⟨fun tx' hne => AList.lookup_erase_ne hne, rfl, ?_⟩
    intro h
    have hbut := h.unindex he
    exact ⟨hbut.expiry.erase, hbut.included.erase, hbut.orphans.erase⟩

@[simp] theorem entry_remove (s : State) (tx : Hash) : (s.remove tx).entry tx = none := by
  unfold State.remove
  cases he : s.entry tx with
  | none => exact he
  | some e => exact AList.lookup_erase _ _

theorem edits_setState (s : State) (tx : Hash) (state : Phase) :
    Edits s (s.setState tx state) tx := by
  unfold State.setState
  cases he : s.entry tx with
  | none => exact edits_refl s tx
  | some e =>
    by_cases hne : e.state ≠ state
    · simp only [hne, ne_eq, not_false_eq_true, if_true]
      exact edits_replace he _
    · simp only [hne, if_false]
      exact edits_refl s tx

@[simp] theorem entry_setState (s : State) (tx : Hash) (state : Phase) :
    (s.setState tx state).entry tx = (s.entry tx).map fun e => { e with state := state } := by
  unfold State.setState
  cases he : s.entry tx with
  | none =>
    simp only
    rw [he, Option.map_none]
  | some e =>
    by_cases hne : e.state ≠ state
    · simp only [hne, ne_eq, not_false_eq_true, if_true, Option.map_some]
      rw [State.entry, entries_index]
      exact AList.lookup_insert _
    · simp only [hne, if_false, Option.map_some]
      rw [he, ← not_not.mp hne]

theorem edits_upsert (s : State) (x : Stored) : Edits s (s.upsert x) x.tx := by
  unfold State.upsert
  cases he : s.entry x.tx with
  | none => exact edits_putEntry he _
  | some held => exact edits_replace he _

def State.stateFor (s : State) (tx : Hash) : Phase :=
  match s.entry tx with
  | some held => held.state
  | none => if (s.pooled.lookup tx).isSome then .pooled else .orphan

@[simp] theorem entry_upsert (s : State) (x : Stored) :
    (s.upsert x).entry x.tx = some ⟨x, s.stateFor x.tx⟩ := by
  unfold State.upsert State.stateFor
  cases he : s.entry x.tx with
  | none | some held =>
    rw [State.entry, entries_index]
    exact AList.lookup_insert _

end Changes

/-! ## Consistent states -/

/-- The entry of a transaction, if it has one, is in the pooled state exactly when the
transaction is in the pooled map. -/
def Agrees (s : State) (tx : Hash) : Prop :=
  ∀ e, s.entry tx = some e → (e.state = .pooled ↔ (s.pooled.lookup tx).isSome = true)

/-- The indexes are those of the entries, and the pooled states those of the pooled map. -/
structure Consistent (s : State) : Prop where
  indexed : Indexed s
  agrees : ∀ tx, Agrees s tx

theorem consistent_init : Consistent State.init := ⟨indexed_init, by intro tx e he; cases he⟩

/-- `s'` is consistent if `s` is, and stores nothing that `s` does not. -/
structure Follows (s s' : State) : Prop where
  consistent : Consistent s → Consistent s'
  stored : ∀ tx, get s' tx = get s tx ∨ get s' tx = none

namespace Follows

variable {s s₁ s' : State}

theorem refl (s : State) : Follows s s := ⟨id, fun _ => .inl rfl⟩

theorem trans (h : Follows s s₁) (h' : Follows s₁ s') : Follows s s' := by
  refine ⟨h'.consistent ∘ h.consistent, ?_⟩
  intro tx
  rcases h'.stored tx with hsame | hnone
  · rw [hsame]
    exact h.stored tx
  · exact .inr hnone

theorem foldl {α : Type} {f : State → α → State} (hf : ∀ s x, Follows s (f s x)) (s : State)
    (xs : List α) : Follows s (xs.foldl f s) := by
  induction xs generalizing s with
  | nil => exact refl s
  | cons x xs ih =>
    rw [List.foldl_cons]
    exact (hf s x).trans (ih (f s x))

end Follows

section Calls

variable {s s₁ s' : State} {tx : Hash}

/-- A change of one entry, behind a change of the pooled map that concerns only its
transaction. -/
theorem Edits.consistent (h : Edits s₁ s' tx) (hindexed : Indexed s₁)
    (hothers : ∀ tx', tx' ≠ tx → Agrees s₁ tx') (hat : Agrees s' tx) : Consistent s' := by
  refine ⟨h.indexed hindexed, ?_⟩
  intro tx'
  by_cases hsame : tx' = tx
  · exact hsame ▸ hat
  · intro e he
    rw [h.frame tx' hsame] at he
    rw [h.pooled]
    exact hothers tx' hsame e he

theorem Edits.stored (h : Edits s s' tx) (hat : get s' tx = get s tx ∨ get s' tx = none)
    (tx' : Hash) : get s' tx' = get s tx' ∨ get s' tx' = none := by
  by_cases hsame : tx' = tx
  · exact hsame ▸ hat
  · rw [get, get, h.frame tx' hsame]
    exact .inl rfl

theorem follows_remove (s : State) (tx : Hash) : Follows s (s.remove tx) := by
  have hedit := edits_remove s tx
  refine ⟨fun h => hedit.consistent h.indexed (fun tx' _ => h.agrees tx') ?_,
    hedit.stored (.inr ?_)⟩
  · intro e he
    rw [entry_remove] at he
    cases he
  · rw [get, entry_remove, Option.map_none]

theorem get_setState (s : State) (tx : Hash) (state : Phase) :
    get (s.setState tx state) tx = get s tx := by
  rw [get, entry_setState, Option.map_map]
  rfl

theorem follows_enter (s : State) {pool left : Table Hash Int64}
    (hothers : ∀ tx', tx' ≠ tx → pool.lookup tx' = s.pooled.lookup tx')
    (hself : (pool.lookup tx).isSome = true) :
    Follows s (State.setState { s with pooled := pool, left := left } tx .pooled) := by
  have hedit := edits_setState { s with pooled := pool, left := left } tx .pooled
  refine ⟨fun h => hedit.consistent ⟨h.indexed.expiry, h.indexed.included, h.indexed.orphans⟩
    ?_ ?_, hedit.stored (.inl (get_setState _ tx _))⟩
  · intro tx' hne e he
    show e.state = .pooled ↔ (pool.lookup tx').isSome = true
    rw [hothers tx' hne]
    exact h.agrees tx' e he
  · intro e he
    rw [entry_setState] at he
    obtain ⟨e₀, -, rfl⟩ := Option.map_eq_some_iff.mp he
    rw [hedit.pooled]
    exact iff_of_true rfl hself

theorem follows_pooled (s : State) (tx : Hash) (now : Int64) : Follows s (pooled s tx now) := by
  apply follows_enter
  · intro tx' hne
    exact AList.lookup_insert_ne hne
  · rw [AList.lookup_insert]
    rfl

theorem indexed_leave (h : Indexed s) (tx : Hash) (now : Int64) : Indexed (s.leave tx now) :=
  ⟨h.expiry, h.included, h.orphans⟩

theorem agrees_leave (h : Consistent s) {now : Int64} {tx' : Hash} (hne : tx' ≠ tx) :
    Agrees (s.leave tx now) tx' := by
  intro e he
  rw [show (s.leave tx now).pooled.lookup tx' = s.pooled.lookup tx' from AList.lookup_erase_ne hne]
  exact h.agrees tx' e he

variable {state : Phase}

theorem left_iff (s : State) (tx : Hash) (now : Int64) (hstate : state ≠ .pooled) :
    state = .pooled ↔ ((s.leave tx now).pooled.lookup tx).isSome = true := by
  rw [show (s.leave tx now).pooled.lookup tx = none from AList.lookup_erase _ _]
  exact iff_of_false hstate nofun

theorem follows_leave (s : State) (tx : Hash) (now : Int64) (hstate : state ≠ .pooled) :
    Follows s ((s.leave tx now).setState tx state) := by
  have hedit := edits_setState (s.leave tx now) tx state
  refine ⟨fun h => hedit.consistent (indexed_leave h.indexed tx now)
    (fun tx' hne => agrees_leave h hne) ?_, hedit.stored (.inl (get_setState _ tx _))⟩
  intro e he
  rw [entry_setState] at he
  obtain ⟨e₀, -, rfl⟩ := Option.map_eq_some_iff.mp he
  rw [hedit.pooled]
  exact left_iff s tx now hstate

theorem follows_included (s : State) (tx : Hash) (now : Int64) :
    Follows s (included s tx now) :=
  follows_leave s tx now nofun

theorem follows_unpooled (s : State) (tx : Hash) (now : Int64) :
    Follows s (unpooled s tx now) := by
  have hstay : (∀ e, s.entry tx = some e → e.state ≠ .pooled) → Follows s (s.leave tx now) := by
    intro hstates
    refine ⟨fun h => (edits_refl _ tx).consistent (indexed_leave h.indexed tx now)
      (fun tx' hne => agrees_leave h hne) ?_, fun _ => .inl rfl⟩
    intro e he
    exact left_iff s tx now (hstates e he)
  unfold unpooled
  cases he : (s.leave tx now).entry tx with
  | none =>
    apply hstay
    intro e he'
    cases he.symm.trans he'
  | some e =>
    by_cases hstate : e.state = .pooled
    · simp only [hstate, if_true]
      exact follows_leave s tx now nofun
    · simp only [hstate, if_false]
      apply hstay
      intro e' he'
      obtain rfl := Option.some.inj (he.symm.trans he')
      exact hstate

theorem follows_removeAll (s : State) (txs : List Hash) : Follows s (removeAll s txs) :=
  Follows.foldl follows_remove s txs

theorem follows_evictLoop (now : Int64) (turns : Nat) (s : State) (evicted : Nat) :
    Follows s (evictLoop now turns s evicted).1 := by
  induction turns generalizing s evicted with
  | zero => exact .refl s
  | succ turns ih =>
    unfold evictLoop
    split
    · exact .refl s
    · split
      · exact (follows_remove s _).trans (ih _ _)
      · exact .refl s

theorem follows_reconcileLeft (poolSnapshot : List Hash) (takenAt : Int64) (clock : Hash → Int64)
    (s : State) (tx : Hash) : Follows s (reconcileLeft poolSnapshot takenAt clock s tx) := by
  unfold reconcileLeft
  split
  · exact follows_unpooled s tx (clock tx)
  · exact .refl s

theorem follows_reconcileJoined (takenAt : Int64) (s : State) (tx : Hash) :
    Follows s (reconcileJoined takenAt s tx) := by
  unfold reconcileJoined
  split
  · exact .refl s
  · apply follows_enter
    · intro tx' hne
      split
      · rfl
      · exact AList.lookup_insert_ne hne
    · split
      · assumption
      · rw [AList.lookup_insert]
        rfl

theorem follows_reconcile (s : State) (poolSnapshot : List Hash) (takenAt : Int64)
    (clock : Hash → Int64) : Follows s (reconcile s poolSnapshot takenAt clock) := by
  have hloops : Follows s (poolSnapshot.foldl (reconcileJoined takenAt)
      (s.pooled.keys.foldl (reconcileLeft poolSnapshot takenAt clock) s)) :=
    (Follows.foldl (follows_reconcileLeft poolSnapshot takenAt clock) s _).trans
      (Follows.foldl (follows_reconcileJoined takenAt) _ _)
  refine ⟨fun h => ?_, hloops.stored⟩
  have hloop := hloops.consistent h
  exact ⟨⟨hloop.indexed.expiry, hloop.indexed.included, hloop.indexed.orphans⟩, hloop.agrees⟩

theorem consistent_upsert (h : Consistent s) (x : Stored) : Consistent (s.upsert x) := by
  have hedit := edits_upsert s x
  refine hedit.consistent h.indexed (fun tx' _ => h.agrees tx') ?_
  intro e he
  rw [entry_upsert] at he
  obtain rfl := Option.some.inj he
  rw [hedit.pooled]
  show s.stateFor x.tx = .pooled ↔ _
  unfold State.stateFor
  cases hheld : s.entry x.tx with
  | some held => exact h.agrees x.tx held hheld
  | none =>
    simp only
    split
    · exact iff_of_true rfl (by assumption)
    · exact iff_of_false nofun (by assumption)

end Calls

/-! ## Expired approvals -/

theorem valid_of_slots {s : State} {now : Int64} (h : Indexed s)
    (hslots : ∀ k ∈ s.byExpiry, now < Slot.time k) (tx : Hash) :
    s.entry tx = (s.entry tx).filter fun e => decide (now < e.stored.expiresAt) := by
  cases he : s.entry tx with
  | none => rfl
  | some e =>
    have hlater := hslots _ ((h.expiry _).mpr ⟨tx, e, he, rfl⟩)
    rw [time_slot] at hlater
    rw [Option.filter_some, if_pos (decide_eq_true hlater)]

/-- With a turn for every slot the loop removes what has expired alone. -/
theorem entry_evictLoop {s : State} {now : Int64} {turns : Nat} (h : Indexed s)
    (hturns : s.byExpiry.size ≤ turns) (evicted : Nat) (tx : Hash) :
    (evictLoop now turns s evicted).1.entry tx =
      (s.entry tx).filter fun e => decide (now < e.stored.expiresAt) := by
  induction turns generalizing s evicted with
  | zero =>
    refine valid_of_slots h (fun k hk => ?_) tx
    exact absurd (List.length_pos_of_mem hk) (Nat.not_lt.mpr hturns)
  | succ turns ih =>
    unfold evictLoop
    split
    · rename_i hfirst
      exact valid_of_slots h (fun k hk => absurd hk (OrdSet.first_eq_none.mp hfirst k)) tx
    · rename_i first hfirst
      obtain ⟨hmem, hleast⟩ := OrdSet.first_eq_some.mp hfirst
      obtain ⟨tx', e, he, hkey⟩ := (h.expiry first).mp hmem
      obtain rfl := expiryKey_eq_some.mp hkey
      rw [time_slot]
      split
      · rename_i hpast
        change s.entry tx' = some e at he
        have hedits := edits_remove s tx'
        have hshorter : (s.remove tx').byExpiry.size + 1 = s.byExpiry.size := by
          unfold State.remove
          rw [he]
          exact OrdSet.size_erase hmem
        refine (ih (hedits.indexed h) (by omega) _).trans ?_
        by_cases htx : tx = tx'
        · subst htx
          rw [entry_remove, he, Option.filter_some, if_neg (by simpa using hpast)]
          rfl
        · rw [hedits.frame tx htx]
      · rename_i hlater
        refine valid_of_slots h (fun k hk => ?_) tx
        obtain ⟨tx', e', -, hkey'⟩ := (h.expiry k).mp hk
        have hle := hleast k hk
        rw [← expiryKey_eq_some.mp hkey'] at hle ⊢
        have htimes := slot_le hle
        rw [Int64.le_iff_toInt_le] at hlater
        rw [time_slot, Int64.lt_iff_toInt_lt]
        omega

end PrivacySuite.Besu.ApprovalStore
