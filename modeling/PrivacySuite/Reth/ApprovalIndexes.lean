import PrivacySuite.Reth.Approvals

/-!
# The indexes of the Reth store

`Indexed` says that the indexes are those of the entries. Every change of the state goes
through `insert`, `remove` or `modify`; each of them keeps the indexes (`Edits`), touches
the entry of one hash and nothing else.
-/

namespace PrivacySuite.Reth.Approvals

open Codec NodeApproval Data

/-! ## The keys of an entry -/

def expiryKey (hash : Hash) (e : Entry) : Option (Nat ×ₗ Hash) :=
  e.approval.map fun a => expiryOf a hash

def evictableKey (hash : Hash) (e : Entry) : Option (Nat ×ₗ Nat ×ₗ Hash) :=
  e.approval.bind fun a => evictableOf e a hash

def includedKey (hash : Hash) (e : Entry) : Option (Nat ×ₗ Hash) :=
  e.approval.bind fun _ => includedOf e hash

def timerKey (hash : Hash) (e : Entry) : Option (Nat ×ₗ Nat ×ₗ Hash) := some (timerOf e hash)

theorem expiryKey_eq_some {hash : Hash} {e : Entry} {k : Nat ×ₗ Hash} :
    expiryKey hash e = some k ↔
      ∃ a, e.approval = some a ∧ k = toLex (a.expiresAt.toNat, hash) := by
  simp [expiryKey, expiryOf, eq_comm]

theorem evictableKey_eq_some {hash : Hash} {e : Entry} {k : Nat ×ₗ Nat ×ₗ Hash} :
    evictableKey hash e = some k ↔
      ∃ a c, e.approval = some a ∧ e.evictionClass = some c ∧
        k = toLex (c, toLex (a.issuedAt.toNat, hash)) := by
  simp only [evictableKey, evictableOf, Option.bind_eq_some_iff, Option.map_eq_some_iff,
    exists_and_left, eq_comm (a := k)]

theorem includedKey_eq_some {hash : Hash} {e : Entry} {k : Nat ×ₗ Hash} :
    includedKey hash e = some k ↔
      ∃ a block, e.approval = some a ∧ e.included = some block ∧
        k = toLex (block.toNat, hash) := by
  simp only [includedKey, includedOf, Option.bind_eq_some_iff, Option.map_eq_some_iff,
    exists_and_left, eq_comm (a := k)]

theorem separates_expiryKey : Separates expiryKey := by
  intro h h' e e' k hk hk'
  obtain ⟨a, -, rfl⟩ := expiryKey_eq_some.mp hk
  obtain ⟨a', -, heq⟩ := expiryKey_eq_some.mp hk'
  exact (Prod.mk.inj (toLex.injective heq)).2

theorem separates_evictableKey : Separates evictableKey := by
  intro h h' e e' k hk hk'
  obtain ⟨a, c, -, -, rfl⟩ := evictableKey_eq_some.mp hk
  obtain ⟨a', c', -, -, heq⟩ := evictableKey_eq_some.mp hk'
  exact (Prod.mk.inj (toLex.injective (Prod.mk.inj (toLex.injective heq)).2)).2

theorem separates_includedKey : Separates includedKey := by
  intro h h' e e' k hk hk'
  obtain ⟨a, b, -, -, rfl⟩ := includedKey_eq_some.mp hk
  obtain ⟨a', b', -, -, heq⟩ := includedKey_eq_some.mp hk'
  exact (Prod.mk.inj (toLex.injective heq)).2

theorem timerOf_hash (e : Entry) (hash : Hash) : (ofLex (ofLex (timerOf e hash)).2).2 = hash := rfl

theorem separates_timerKey : Separates timerKey := by
  intro h h' e e' k hk hk'
  have heq : timerOf e h = timerOf e' h' := Option.some.inj (hk.trans hk'.symm)
  rw [← timerOf_hash e h, heq, timerOf_hash]

/-! ## States with their indexes -/

structure Indexed (s : State) : Prop where
  expiry : Indexes expiryKey s.entries s.byExpiry
  evictable : Indexes evictableKey s.entries s.evictable
  included : Indexes includedKey s.entries s.included
  timers : Indexes timerKey s.entries s.deadlines
  count : s.approvals = s.byExpiry.size

/-- The indexes that `index` keeps are those of all entries but one. -/
structure IndexedBut (hash : Hash) (s : State) : Prop where
  expiry : IndexesBut expiryKey hash s.entries s.byExpiry
  evictable : IndexesBut evictableKey hash s.entries s.evictable
  included : IndexesBut includedKey hash s.entries s.included
  timers : Indexes timerKey s.entries s.deadlines
  count : s.approvals = s.byExpiry.size

theorem indexed_init : Indexed State.init :=
  ⟨indexes_empty, indexes_empty, indexes_empty, indexes_empty, rfl⟩

theorem Indexed.approvals_eq {s : State} (h : Indexed s) :
    s.approvals = (s.entries.entries.filter fun p => p.2.approval.isSome).length := by
  rw [h.count, h.expiry.size separates_expiryKey]
  congr 2
  funext p
  simp [expiryKey]

section Index

variable {s : State} {hash : Hash} {e : Entry} {a : Approval}

theorem index_of_entry_none (h : s.entry hash = none) (add : Bool) : s.index hash add = s := by
  rw [State.index, h]

theorem index_true_eq (h : s.entry hash = some e) :
    s.index hash true = { s with
      approvals := s.approvals + if (expiryKey hash e).isSome then 1 else 0
      byExpiry := s.byExpiry.extend (expiryKey hash e)
      evictable := s.evictable.extend (evictableKey hash e)
      included := s.included.extend (includedKey hash e) } := by
  cases ha : e.approval <;>
    simp [State.index, h, ha, expiryKey, evictableKey, includedKey, OrdSet.extend]

theorem index_false_eq (h : s.entry hash = some e) :
    s.index hash false = { s with
      approvals := s.approvals - if (expiryKey hash e).isSome then 1 else 0
      byExpiry := s.byExpiry.drop (expiryKey hash e)
      evictable := s.evictable.drop (evictableKey hash e)
      included := s.included.drop (includedKey hash e) } := by
  cases ha : e.approval <;>
    simp [State.index, h, ha, expiryKey, evictableKey, includedKey, OrdSet.drop]

theorem index_frame (s : State) (hash : Hash) (add : Bool) :
    (s.index hash add).entries = s.entries ∧ (s.index hash add).deadlines = s.deadlines ∧
      (s.index hash add).finalized = s.finalized ∧
      (s.index hash add).firstStatus = s.firstStatus := by
  cases hentry : s.entry hash with
  | none =>
    rw [index_of_entry_none hentry]
    exact ⟨rfl, rfl, rfl, rfl⟩
  | some e =>
    cases add with
    | true =>
      rw [index_true_eq hentry]
      exact ⟨rfl, rfl, rfl, rfl⟩
    | false =>
      rw [index_false_eq hentry]
      exact ⟨rfl, rfl, rfl, rfl⟩

@[simp] theorem entries_index (s : State) (hash : Hash) (add : Bool) :
    (s.index hash add).entries = s.entries := (index_frame s hash add).1

@[simp] theorem entry_index (s : State) (hash : Hash) (add : Bool) (h : Hash) :
    (s.index hash add).entry h = s.entry h := by
  rw [State.entry, entries_index, State.entry]

@[simp] theorem deadlines_index (s : State) (hash : Hash) (add : Bool) :
    (s.index hash add).deadlines = s.deadlines := (index_frame s hash add).2.1

@[simp] theorem finalized_index (s : State) (hash : Hash) (add : Bool) :
    (s.index hash add).finalized = s.finalized := (index_frame s hash add).2.2.1

@[simp] theorem firstStatus_index (s : State) (hash : Hash) (add : Bool) :
    (s.index hash add).firstStatus = s.firstStatus := (index_frame s hash add).2.2.2

theorem Indexed.index_false (h : Indexed s) (hash : Hash) :
    IndexedBut hash (s.index hash false) := by
  cases hentry : s.entry hash with
  | none =>
    rw [index_of_entry_none hentry]
    exact ⟨h.expiry.but hentry, h.evictable.but hentry, h.included.but hentry, h.timers, h.count⟩
  | some e =>
    have hown : ∀ k, expiryKey hash e = some k → k ∈ s.byExpiry := fun k hk =>
      (h.expiry k).mpr ⟨hash, e, hentry, hk⟩
    rw [index_false_eq hentry]
    refine ⟨h.expiry.drop_key separates_expiryKey hentry,
      h.evictable.drop_key separates_evictableKey hentry,
      h.included.drop_key separates_includedKey hentry, h.timers, ?_⟩
    exact (congrArg (· - _) h.count).trans (OrdSet.size_drop hown).symm

/-- Once the entry is in its place, `index` completes the indexes. -/
theorem IndexedBut.index_true (h : IndexedBut hash s) {deadlines : OrdSet (Nat ×ₗ Nat ×ₗ Hash)}
    {generation : UInt64} (htimers : Indexes timerKey (s.entries.insert hash e) deadlines) :
    Indexed (State.index { s with
      entries := s.entries.insert hash e
      deadlines := deadlines
      generation := generation } hash true) := by
  generalize hs' : ({ s with
      entries := s.entries.insert hash e
      deadlines := deadlines
      generation := generation } : State) = s'
  have hentry : s'.entry hash = some e := by
    rw [← hs']
    exact AList.lookup_insert _
  have hnew : ∀ k, expiryKey hash e = some k → k ∉ s.byExpiry := by
    intro k hkey
    rw [h.expiry]
    rintro ⟨n', e', hne, -, hk⟩
    exact hne (separates_expiryKey n' hash e' e _ hk hkey)
  rw [index_true_eq hentry, ← hs']
  refine ⟨h.expiry.insert e, h.evictable.insert e, h.included.insert e, htimers, ?_⟩
  exact (congrArg (· + _) h.count).trans (OrdSet.size_extend hnew).symm

end Index

/-! ## The three ways to change a state -/

/-- `s'` is `s` with a change of the entry of one hash, its indexes kept. -/
structure Edits (s s' : State) (hash : Hash) : Prop where
  frame : ∀ h, h ≠ hash → s'.entry h = s.entry h
  finalized : s'.finalized = s.finalized
  firstStatus : s'.firstStatus = s.firstStatus
  indexed : Indexed s → Indexed s'

section Changes

variable {s : State} {hash : Hash}

theorem timers_insert {e : Entry} (e' : Entry) (h : Indexes timerKey s.entries s.deadlines)
    (hentry : s.entry hash = some e) :
    Indexes timerKey (s.entries.insert hash e')
      ((s.deadlines.erase (timerOf e hash)).insert (timerOf e' hash)) := by
  exact (h.drop_key separates_timerKey hentry).insert e'

@[simp] theorem entry_insert (e : Entry) :
    (s.insert hash e).entry hash = some { e with generation := s.generation + 1 } := by
  simp [State.insert, State.entry]

theorem edits_insert (e : Entry) (hnew : s.entry hash = none) : Edits s (s.insert hash e) hash where
  frame := by
    intro h hne
    simp [State.insert, State.entry, AList.lookup_insert_ne hne]
  finalized := by simp [State.insert]
  firstStatus := by simp [State.insert]
  indexed := by
    intro h
    have hbut : IndexedBut hash s :=
      ⟨h.expiry.but hnew, h.evictable.but hnew, h.included.but hnew, h.timers, h.count⟩
    apply hbut.index_true
    exact (h.timers.but hnew).insert _

@[simp] theorem entry_remove : (s.remove hash).entry hash = none := by
  unfold State.remove
  simp only [entry_index]
  split
  · rename_i h
    rw [entry_index, h]
  · simp [State.entry]

theorem edits_remove : Edits s (s.remove hash) hash := by
  cases hentry : s.entry hash with
  | none =>
    have hsame : s.remove hash = s := by
      simp only [State.remove, index_of_entry_none hentry, hentry]
    rw [hsame]
    exact ⟨fun _ _ => rfl, rfl, rfl, id⟩
  | some e =>
    have heq : s.remove hash = { s.index hash false with
        entries := (s.index hash false).entries.erase hash
        deadlines := (s.index hash false).deadlines.erase (timerOf e hash) } := by
      simp only [State.remove, entry_index, hentry]
    rw [heq]
    refine ⟨?_, by simp, by simp, ?_⟩
    · intro h hne
      simp [State.entry, AList.lookup_erase_ne hne]
    · intro h
      have hbut := h.index_false hash
      have htimers := hbut.timers.drop_key separates_timerKey
        ((entry_index s hash false hash).trans hentry)
      exact ⟨hbut.expiry.erase, hbut.evictable.erase, hbut.included.erase, htimers.erase,
        hbut.count⟩

theorem modify_of_entry_none (hentry : s.entry hash = none) (change : Entry → Entry) :
    s.modify hash change = s := by
  simp only [State.modify, index_of_entry_none hentry, hentry]

theorem modify_eq {e : Entry} (hentry : s.entry hash = some e) (change : Entry → Entry) :
    s.modify hash change = State.index { s.index hash false with
      entries := (s.index hash false).entries.insert hash (change e)
      deadlines := if timerOf (change e) hash ≠ timerOf e hash then
        ((s.index hash false).deadlines.erase (timerOf e hash)).insert (timerOf (change e) hash)
        else (s.index hash false).deadlines } hash true := by
  simp only [State.modify, entry_index, hentry]

@[simp] theorem entry_modify (change : Entry → Entry) :
    (s.modify hash change).entry hash = (s.entry hash).map change := by
  cases hentry : s.entry hash with
  | none => rw [modify_of_entry_none hentry, hentry, Option.map_none]
  | some e =>
    rw [modify_eq hentry, entry_index]
    exact AList.lookup_insert _

theorem edits_modify (change : Entry → Entry) : Edits s (s.modify hash change) hash := by
  cases hentry : s.entry hash with
  | none =>
    rw [modify_of_entry_none hentry]
    exact ⟨fun _ _ => rfl, rfl, rfl, id⟩
  | some e =>
    rw [modify_eq hentry]
    refine ⟨?_, by simp, by simp, ?_⟩
    · intro h hne
      simp [State.entry, AList.lookup_insert_ne hne]
    · intro h
      have hbut := h.index_false hash
      apply hbut.index_true
      have htimers := timers_insert (change e) hbut.timers
        ((entry_index s hash false hash).trans hentry)
      split
      · exact htimers
      · -- the timer stays: taking it out and putting it in again changes nothing
        rename_i hsame
        rw [not_not] at hsame
        have hset : ((s.index hash false).deadlines.erase (timerOf e hash)).insert
            (timerOf (change e) hash) = (s.index hash false).deadlines := by
          ext k
          rw [OrdSet.mem_insert, OrdSet.mem_erase, hsame]
          by_cases hk : k = timerOf e hash
          · have hin : timerOf e hash ∈ (s.index hash false).deadlines := by
              rw [hbut.timers]
              exact ⟨hash, e, (entry_index s hash false hash).trans hentry, rfl⟩
            simpa [hk] using hin
          · simp [hk]
        rw [hset] at htimers
        exact htimers

end Changes

end PrivacySuite.Reth.Approvals
