import PrivacySuite.Besu.ApprovalIndexes

/-!
# What the Besu store may evict

`victims` leaves an index by issue time at the first approval that is too young. That it
then misses none that may go needs times whose differences do not wrap: the ingress lets no
batch through that is issued more than seconds ahead of the clock (`Dated`).
-/

namespace PrivacySuite.Besu.ApprovalStore

open Codec NodeApproval Data List

/-- The approval under the hash may go for a batch that names `keep`: it has expired, or
its transaction is not pooled and it was issued at least the grace period ago. -/
def Evictable (s : State) (now graceMs : Int64) (keep : List Hash) (tx : Hash) : Prop :=
  tx ∉ keep ∧ ∃ e, s.entry tx = some e ∧
    (e.stored.expiresAt ≤ now ∨
      e.state ≠ .pooled ∧ graceMs.toInt ≤ now.toInt - e.stored.issuedAt.toInt)

/-- No issue time is negative as a signed word. -/
def Dated (s : State) : Prop := ∀ tx e, s.entry tx = some e → 0 ≤ e.stored.issuedAt.toInt

/-- Between times that are not negative the difference does not wrap. -/
theorem age_lt_iff {now issuedAt graceMs : Int64} (hnow : 0 ≤ now.toInt)
    (hissued : 0 ≤ issuedAt.toInt) :
    now - issuedAt < graceMs ↔ now.toInt - issuedAt.toInt < graceMs.toInt := by
  have h1 := now.toInt_lt
  have h2 := issuedAt.toInt_lt
  rw [Int64.lt_iff_toInt_lt, Int64.toInt_sub, Int.bmod_eq_of_le (by omega) (by omega)]

namespace State

variable (s : State) (now graceMs : Int64) (keep : List Hash)

/-- Expired approvals, the soonest expired first. -/
def expiredCandidates : List Hash :=
  ((s.byExpiry.toList.filter fun k => !decide (now < Slot.time k)).map Slot.tx).filter
    fun tx => !keep.contains tx

/-- The approvals of an index by issue time in front of the first young one. -/
def issueCandidates (index : OrdSet Slot) : List Hash :=
  ((index.toList.takeWhile fun k => !decide (now - Slot.time k < graceMs)).map Slot.tx).filter
    fun tx => !keep.contains tx

/-- Expired approvals and, behind them, the old ones of included transactions. -/
def pastCandidates : List Hash :=
  s.expiredCandidates now keep ++ (issueCandidates now graceMs keep s.includedByIssue).filter
    fun tx => !(s.expiredCandidates now keep).contains tx

/-- Everything the walk can reach, in its order. -/
def candidates : List Hash :=
  s.pastCandidates now graceMs keep ++ (issueCandidates now graceMs keep s.orphansByIssue).filter
    fun tx => !(s.pastCandidates now graceMs keep).contains tx

end State

section Candidates

variable {s : State} {now graceMs : Int64} {keep : List Hash} {tx : Hash} {state : Phase}
  {ix : OrdSet Slot}

theorem mem_byExpiry (h : Indexed s) {k : Slot} :
    k ∈ s.byExpiry.toList ↔ ∃ e, s.entry k.tx = some e ∧ slot e.stored.expiresAt k.tx = k := by
  rw [OrdSet.mem_toList, h.expiry]
  constructor
  · rintro ⟨tx, e, he, hk⟩
    obtain rfl := expiryKey_tx hk
    exact ⟨e, he, expiryKey_eq_some.mp hk⟩
  · rintro ⟨e, he, hk⟩
    exact ⟨k.tx, e, he, expiryKey_eq_some.mpr hk⟩

theorem mem_issue (h : Indexes (issueKey state) s.entries ix) {k : Slot} :
    k ∈ ix.toList ↔
      ∃ e, s.entry k.tx = some e ∧ e.state = state ∧ slot e.stored.issuedAt k.tx = k := by
  rw [OrdSet.mem_toList, h]
  constructor
  · rintro ⟨tx, e, he, hk⟩
    obtain rfl := issueKey_tx hk
    exact ⟨e, he, issueKey_eq_some.mp hk⟩
  · rintro ⟨e, he, hk⟩
    exact ⟨k.tx, e, he, issueKey_eq_some.mpr hk⟩

theorem mem_expiredCandidates (h : Indexed s) :
    tx ∈ s.expiredCandidates now keep ↔
      tx ∉ keep ∧ ∃ e, s.entry tx = some e ∧ e.stored.expiresAt ≤ now := by
  simp only [State.expiredCandidates, mem_filter, mem_map, mem_byExpiry h,
    Bool.not_eq_true', decide_eq_false_iff_not, Int64.not_lt, contains_eq_mem]
  constructor
  · rintro ⟨⟨k, ⟨⟨e, he, hk⟩, hle⟩, rfl⟩, hkeep⟩
    rw [← hk, time_slot] at hle
    exact ⟨hkeep, e, he, hle⟩
  · rintro ⟨hkeep, e, he, hle⟩
    exact ⟨⟨slot e.stored.expiresAt tx, ⟨⟨e, he, rfl⟩, by rwa [time_slot]⟩, rfl⟩, hkeep⟩

/-- Leaving an index by issue time at the first young approval misses no old one. -/
theorem takeWhile_issue (h : Indexes (issueKey state) s.entries ix) (hdated : Dated s)
    (hnow : 0 ≤ now.toInt) (graceMs : Int64) :
    (ix.toList.takeWhile fun k => !decide (now - Slot.time k < graceMs)) =
      ix.toList.filter fun k => !decide (now - Slot.time k < graceMs) := by
  apply OrdSet.takeWhile_eq_filter ix.sorted
  intro x hx y hy hxy hstop
  obtain ⟨e, he, -, hex⟩ := (mem_issue h).mp hx
  obtain ⟨e', he', -, hey⟩ := (mem_issue h).mp hy
  rw [← hex, ← hey] at hxy
  rw [← hex, time_slot, decide_eq_true_eq, age_lt_iff hnow (hdated _ e he)] at hstop
  rw [← hey, time_slot, decide_eq_true_eq, age_lt_iff hnow (hdated _ e' he')]
  have htimes := slot_le hxy
  omega

theorem mem_issueCandidates (h : Indexes (issueKey state) s.entries ix) (hdated : Dated s)
    (hnow : 0 ≤ now.toInt) :
    tx ∈ State.issueCandidates now graceMs keep ix ↔
      tx ∉ keep ∧ ∃ e, s.entry tx = some e ∧ e.state = state ∧
        graceMs.toInt ≤ now.toInt - e.stored.issuedAt.toInt := by
  simp only [State.issueCandidates, takeWhile_issue h hdated hnow, mem_filter, mem_map,
    mem_issue h, Bool.not_eq_true', decide_eq_false_iff_not, contains_eq_mem]
  constructor
  · rintro ⟨⟨k, ⟨⟨e, he, hstate, hk⟩, hold⟩, rfl⟩, hkeep⟩
    rw [← hk, time_slot, age_lt_iff hnow (hdated _ e he), Int.not_lt] at hold
    exact ⟨hkeep, e, he, hstate, hold⟩
  · rintro ⟨hkeep, e, he, hstate, hold⟩
    refine ⟨⟨slot e.stored.issuedAt tx, ⟨⟨e, he, hstate, rfl⟩, ?_⟩, rfl⟩, hkeep⟩
    rw [time_slot, age_lt_iff hnow (hdated tx e he), Int.not_lt]
    exact hold

/-- Whatever the times are, the walk reaches only entries the batch does not name. -/
theorem reached_of_mem (h : Indexed s) (hmem : tx ∈ s.candidates now graceMs keep) :
    tx ∉ keep ∧ ∃ e, s.entry tx = some e := by
  have hissue : ∀ {state ix}, Indexes (issueKey state) s.entries ix →
      tx ∈ State.issueCandidates now graceMs keep ix → tx ∉ keep ∧ ∃ e, s.entry tx = some e := by
    intro state ix hix hmem
    simp only [State.issueCandidates, mem_filter, mem_map, Bool.not_eq_true',
      contains_eq_mem, decide_eq_false_iff_not] at hmem
    obtain ⟨⟨k, hk, rfl⟩, hkeep⟩ := hmem
    obtain ⟨e, he, -⟩ := (mem_issue hix).mp ((takeWhile_sublist _).subset hk)
    exact ⟨hkeep, e, he⟩
  rw [State.candidates, mem_append_filter, State.pastCandidates, mem_append_filter,
    mem_expiredCandidates h] at hmem
  rcases hmem with (⟨hkeep, e, he, -⟩ | hmem) | hmem
  · exact ⟨hkeep, e, he⟩
  · exact hissue h.included hmem
  · exact hissue h.orphans hmem

theorem mem_candidates (h : Indexed s) (hdated : Dated s) (hnow : 0 ≤ now.toInt) :
    tx ∈ s.candidates now graceMs keep ↔ Evictable s now graceMs keep tx := by
  rw [State.candidates, mem_append_filter, State.pastCandidates, mem_append_filter,
    mem_expiredCandidates h, mem_issueCandidates h.included hdated hnow,
    mem_issueCandidates h.orphans hdated hnow, Evictable]
  constructor
  · rintro ((⟨hkeep, e, he, hexpired⟩ | ⟨hkeep, e, he, hstate, hold⟩) |
      ⟨hkeep, e, he, hstate, hold⟩)
    · exact ⟨hkeep, e, he, .inl hexpired⟩
    all_goals exact ⟨hkeep, e, he, .inr ⟨by rw [hstate]; nofun, hold⟩⟩
  · rintro ⟨hkeep, e, he, hexpired | ⟨hstate, hold⟩⟩
    · exact .inl (.inl ⟨hkeep, e, he, hexpired⟩)
    · cases hphase : e.state with
      | pooled => exact absurd hphase hstate
      | included => exact .inl (.inr ⟨hkeep, e, he, hphase, hold⟩)
      | orphan => exact .inr ⟨hkeep, e, he, hphase, hold⟩

theorem nodup_expiry (h : Indexed s) : (s.byExpiry.toList.map Slot.tx).Nodup :=
  h.expiry.nodup_names fun _ _ _ => expiryKey_tx

theorem nodup_issue (h : Indexes (issueKey state) s.entries ix) :
    (ix.toList.map Slot.tx).Nodup :=
  h.nodup_names fun _ _ _ => issueKey_tx

theorem nodup_candidates (h : Indexed s) : (s.candidates now graceMs keep).Nodup := by
  apply nodup_append_filter
  · apply nodup_append_filter
    · apply List.Nodup.filter
      exact (nodup_expiry h).sublist (filter_sublist.map _)
    · apply List.Nodup.filter
      exact (nodup_issue h.included).sublist ((takeWhile_sublist _).map _)
  · apply List.Nodup.filter
    exact (nodup_issue h.orphans).sublist ((takeWhile_sublist _).map _)

/-! ## The walk -/

/-- Leaving `byExpiry` at the first unexpired approval misses no expired one. -/
theorem takeWhile_byExpiry (h : Indexed s) (now : Int64) :
    (s.byExpiry.toList.takeWhile fun k => !decide (now < Slot.time k)) =
      s.byExpiry.toList.filter fun k => !decide (now < Slot.time k) := by
  apply OrdSet.takeWhile_eq_filter s.byExpiry.sorted
  intro x hx y hy hxy hstop
  obtain ⟨e, -, hex⟩ := (mem_byExpiry h).mp hx
  obtain ⟨e', -, hey⟩ := (mem_byExpiry h).mp hy
  rw [← hex, ← hey] at hxy
  rw [← hex, time_slot, decide_eq_true_eq, Int64.lt_iff_toInt_lt] at hstop
  rw [← hey, time_slot, decide_eq_true_eq, Int64.lt_iff_toInt_lt]
  have htimes := slot_le hxy
  omega

theorem expiredVictims_eq (h : Indexed s) (wanted : Nat) (now : Int64) (keep : List Hash) :
    s.expiredVictims wanted now keep = (s.expiredCandidates now keep).take wanted := by
  have hpick : pick wanted (fun k => decide (now < Slot.time k)) Slot.tx
      (fun chosen tx => keep.contains tx || chosen.contains tx) s.byExpiry.toList
        (([] : List Hash).take wanted) = _ := pick_take_eq [] (nodup_expiry h)
  rw [takeWhile_byExpiry h] at hpick
  simpa [State.expiredVictims, State.expiredCandidates] using hpick

theorem issueVictims_eq (h : Indexes (issueKey state) s.entries ix) (wanted : Nat)
    (now graceMs : Int64) (keep names : List Hash) :
    State.issueVictims wanted now graceMs keep (names.take wanted) ix =
      (names ++ (State.issueCandidates now graceMs keep ix).filter
        fun tx => !names.contains tx).take wanted := by
  rw [State.issueVictims, pick_take_eq names (nodup_issue h), State.issueCandidates,
    filter_filter]
  congr 3
  funext tx
  rw [Bool.not_or, Bool.and_comm]

/-- The walk finds the first candidates, up to the number wanted. -/
theorem victims_eq (h : Indexed s) (wanted : Nat) (now graceMs : Int64) (keep : List Hash) :
    s.victims wanted now graceMs keep = (s.candidates now graceMs keep).take wanted := by
  rw [State.victims, foldl_cons, foldl_cons, foldl_nil, expiredVictims_eq h,
    issueVictims_eq h.included, issueVictims_eq h.orphans]
  rfl

end Candidates

end PrivacySuite.Besu.ApprovalStore
