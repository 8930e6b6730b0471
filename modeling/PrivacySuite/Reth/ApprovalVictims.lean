import PrivacySuite.Reth.ApprovalIndexes

/-!
# What the Reth store may evict

`victims` walks two indexes and leaves each at the first key that is too young or not
expired. `candidates` lists all approvals that may go, in the order they go in; in a state
with its indexes, the walk finds the first ones of that list (`victims_eq`).
-/

namespace PrivacySuite.Reth.Approvals

open Codec NodeApproval Data List

def State.approvalOf (s : State) (hash : Hash) : Option Approval :=
  (s.entry hash).bind Entry.approval

variable {s : State} {hash : Hash}

theorem approvalOf_eq_some {a : Approval} :
    s.approvalOf hash = some a ↔ ∃ e, s.entry hash = some e ∧ e.approval = some a :=
  Option.bind_eq_some_iff

theorem hasApproval_iff : s.hasApproval hash = true ↔ ∃ a, s.approvalOf hash = some a := by
  unfold State.hasApproval State.approvalOf
  cases s.entry hash with
  | none => simp
  | some e => simp [Option.isSome_iff_exists]

theorem hasApproval_eq_false : s.hasApproval hash = false ↔ s.approvalOf hash = none := by
  rw [← Bool.not_eq_true, hasApproval_iff, Option.eq_none_iff_forall_not_mem]
  exact not_exists

/-! ## Approvals that may go -/

def Expired (s : State) (now : UInt64) (hash : Hash) : Prop :=
  ∃ a, s.approvalOf hash = some a ∧ a.expiresAt ≤ now

/-- The approval under the hash is of the class and was issued at least the grace period
ago. -/
def OldInClass (s : State) (now grace : UInt64) (c : Nat) (hash : Hash) : Prop :=
  ∃ e a, s.entry hash = some e ∧ e.approval = some a ∧ e.evictionClass = some c ∧
    grace.toNat ≤ State.age now a.issuedAt.toNat

/-- The approval under the hash may go for a batch that names `keep`: it has expired, or
its transaction is not pooled and it was issued at least the grace period ago. -/
def Evictable (s : State) (now grace : UInt64) (keep : List Hash) (hash : Hash) : Prop :=
  hash ∉ keep ∧ ∃ e a, s.entry hash = some e ∧ e.approval = some a ∧
    (a.expiresAt ≤ now ∨ e.pooled = none ∧ grace.toNat ≤ State.age now a.issuedAt.toNat)

theorem evictionClass_eq_some {e : Entry} {c : Nat} :
    e.evictionClass = some c ↔ e.pooled = none ∧
      (c = includedClass ∧ e.included ≠ none ∨ c = orphanClass ∧ e.included = none) := by
  unfold Entry.evictionClass
  cases hp : e.pooled with
  | some p => simp
  | none =>
    cases hi : e.included with
    | none => simp [eq_comm]
    | some b => simp [eq_comm]

theorem evictable_iff {now grace : UInt64} {keep : List Hash} :
    Evictable s now grace keep hash ↔ hash ∉ keep ∧ (Expired s now hash ∨
      OldInClass s now grace includedClass hash ∨ OldInClass s now grace orphanClass hash) := by
  refine and_congr_right fun _ => ?_
  constructor
  · rintro ⟨e, a, he, ha, hexpired | ⟨hpooled, hold⟩⟩
    · exact .inl ⟨a, approvalOf_eq_some.mpr ⟨e, he, ha⟩, hexpired⟩
    · right
      cases hi : e.included with
      | none => exact .inr ⟨e, a, he, ha, evictionClass_eq_some.mpr ⟨hpooled, .inr ⟨rfl, hi⟩⟩, hold⟩
      | some b =>
        exact .inl ⟨e, a, he, ha, evictionClass_eq_some.mpr ⟨hpooled, .inl ⟨rfl, by simp [hi]⟩⟩,
          hold⟩
  · rintro (⟨a, ha, hexpired⟩ | ⟨e, a, he, ha, hc, hold⟩ | ⟨e, a, he, ha, hc, hold⟩)
    · obtain ⟨e, he, ha⟩ := approvalOf_eq_some.mp ha
      exact ⟨e, a, he, ha, .inl hexpired⟩
    all_goals exact ⟨e, a, he, ha, .inr ⟨(evictionClass_eq_some.mp hc).1, hold⟩⟩

/-! ## The lists the walk goes through -/

namespace State

variable (s : State) (now grace : UInt64) (keep : List Hash)

/-- Expired approvals, the soonest expired first. -/
def expiredCandidates : List Hash :=
  ((s.byExpiry.toList.filter fun k => !decide (now.toNat < (ofLex k).1)).map expiryHash).filter
    fun hash => !keep.contains hash

/-- Old approvals of a class, the earliest issued first. -/
def classCandidates (c : Nat) : List Hash :=
  (((s.classRange c).filter fun k =>
    !decide (age now (ofLex (ofLex k).2).1 < grace.toNat)).map evictableHash).filter
    fun hash => !keep.contains hash

/-- Expired approvals and, behind them, the old ones of included transactions. -/
def pastCandidates : List Hash :=
  s.expiredCandidates now keep ++
    (s.classCandidates now grace keep includedClass).filter
      fun hash => !(s.expiredCandidates now keep).contains hash

/-- Everything that may go, in the order it goes in. -/
def candidates : List Hash :=
  s.pastCandidates now grace keep ++
    (s.classCandidates now grace keep orphanClass).filter
      fun hash => !(s.pastCandidates now grace keep).contains hash

end State

section Candidates

variable {s : State} {now grace : UInt64} {keep : List Hash} {hash : Hash}

theorem mem_byExpiry (h : Indexed s) {k : Nat ×ₗ Hash} :
    k ∈ s.byExpiry.toList ↔
      ∃ a, s.approvalOf (expiryHash k) = some a ∧ a.expiresAt.toNat = (ofLex k).1 := by
  rw [OrdSet.mem_toList, h.expiry]
  constructor
  · rintro ⟨hash, e, he, hk⟩
    obtain ⟨a, ha, rfl⟩ := expiryKey_eq_some.mp hk
    exact ⟨a, approvalOf_eq_some.mpr ⟨e, he, ha⟩, rfl⟩
  · rintro ⟨a, ha, htime⟩
    obtain ⟨e, he, ha⟩ := approvalOf_eq_some.mp ha
    refine ⟨expiryHash k, e, he, expiryKey_eq_some.mpr ⟨a, ha, ?_⟩⟩
    rw [htime]
    rfl

variable {k : Nat ×ₗ Nat ×ₗ Hash} {c : Nat}

theorem mem_evictable (h : Indexed s) :
    k ∈ s.evictable ↔
      ∃ e a, s.entry (evictableHash k) = some e ∧ e.approval = some a ∧
        e.evictionClass = some (ofLex k).1 ∧ a.issuedAt.toNat = (ofLex (ofLex k).2).1 := by
  rw [h.evictable]
  constructor
  · rintro ⟨hash, e, he, hk⟩
    obtain ⟨a, c, ha, hc, rfl⟩ := evictableKey_eq_some.mp hk
    exact ⟨e, a, he, ha, hc, rfl⟩
  · rintro ⟨e, a, he, ha, hc, htime⟩
    refine ⟨evictableHash k, e, he, evictableKey_eq_some.mpr ⟨a, _, ha, hc, ?_⟩⟩
    rw [htime]
    rfl

theorem mem_classRange (h : Indexed s) :
    k ∈ s.classRange c ↔ k ∈ s.evictable ∧ (ofLex k).1 = c := by
  rw [State.classRange, OrdSet.mem_range]
  refine and_congr_right fun hk => ?_
  obtain ⟨e, a, -, -, -, htime⟩ := (mem_evictable h).mp hk
  have hbound := a.issuedAt.toNat_lt
  rw [htime] at hbound
  constructor
  · rintro ⟨hlow, hhigh⟩
    rw [Prod.Lex.le_iff] at hlow hhigh
    rcases hlow with hlow | ⟨hlow, -⟩
    · rcases hhigh with hhigh | ⟨hhigh, -⟩
      · exact absurd (lt_trans hlow hhigh) (lt_irrefl _)
      · exact hhigh
    · exact hlow.symm
  · intro hc
    constructor
    · rw [Prod.Lex.le_iff]
      refine .inr ⟨hc.symm, ?_⟩
      rw [Prod.Lex.le_iff]
      rcases Nat.eq_zero_or_pos (ofLex (ofLex k).2).1 with hzero | hpos
      · exact .inr ⟨hzero.symm, repeatByte_zero_le _⟩
      · exact .inl hpos
    · rw [Prod.Lex.le_iff]
      refine .inr ⟨hc, ?_⟩
      rw [Prod.Lex.le_iff]
      rcases Nat.lt_or_eq_of_le (Nat.le_sub_one_of_lt hbound) with hlt | heq
      · exact .inl hlt
      · exact .inr ⟨heq, le_repeatByte_max _⟩

theorem mem_expiredCandidates (h : Indexed s) :
    hash ∈ s.expiredCandidates now keep ↔ hash ∉ keep ∧ Expired s now hash := by
  simp only [State.expiredCandidates, mem_filter, mem_map, mem_byExpiry h,
    Bool.not_eq_true', decide_eq_false_iff_not, Nat.not_lt, contains_eq_mem]
  constructor
  · rintro ⟨⟨k, ⟨⟨a, ha, htime⟩, hle⟩, rfl⟩, hkeep⟩
    refine ⟨hkeep, a, ha, ?_⟩
    rw [UInt64.le_iff_toNat_le]
    omega
  · rintro ⟨hkeep, a, ha, hle⟩
    rw [UInt64.le_iff_toNat_le] at hle
    exact ⟨⟨toLex (a.expiresAt.toNat, hash), ⟨⟨a, ha, rfl⟩, hle⟩, rfl⟩, hkeep⟩

theorem mem_classCandidates (h : Indexed s) :
    hash ∈ s.classCandidates now grace keep c ↔
      hash ∉ keep ∧ OldInClass s now grace c hash := by
  simp only [State.classCandidates, mem_filter, mem_map, mem_classRange h,
    mem_evictable h, Bool.not_eq_true', decide_eq_false_iff_not, Nat.not_lt, contains_eq_mem]
  constructor
  · rintro ⟨⟨k, ⟨⟨⟨e, a, he, ha, hc, htime⟩, hk⟩, hold⟩, rfl⟩, hkeep⟩
    refine ⟨hkeep, e, a, he, ha, hk ▸ hc, ?_⟩
    rw [htime]
    exact hold
  · rintro ⟨hkeep, e, a, he, ha, hc, hold⟩
    exact ⟨⟨toLex (c, toLex (a.issuedAt.toNat, hash)), ⟨⟨⟨e, a, he, ha, hc, rfl⟩, rfl⟩, hold⟩, rfl⟩,
      hkeep⟩

theorem nodup_expiryHash (h : Indexed s) : (s.byExpiry.toList.map expiryHash).Nodup := by
  apply h.expiry.nodup_names
  intro hash e k hk
  obtain ⟨a, -, rfl⟩ := expiryKey_eq_some.mp hk
  rfl

theorem nodup_evictableHash (h : Indexed s) : (s.evictable.toList.map evictableHash).Nodup := by
  apply h.evictable.nodup_names
  intro hash e k hk
  obtain ⟨a, c, -, -, rfl⟩ := evictableKey_eq_some.mp hk
  rfl

theorem nodup_expiredCandidates (h : Indexed s) : (s.expiredCandidates now keep).Nodup := by
  apply List.Nodup.filter
  exact (nodup_expiryHash h).sublist (filter_sublist.map _)

theorem nodup_classRange (h : Indexed s) (c : Nat) :
    ((s.classRange c).map evictableHash).Nodup :=
  (nodup_evictableHash h).sublist (filter_sublist.map _)

theorem nodup_classCandidates (h : Indexed s) (c : Nat) :
    (s.classCandidates now grace keep c).Nodup := by
  apply List.Nodup.filter
  exact (nodup_classRange h c).sublist (filter_sublist.map _)

theorem nodup_candidates (h : Indexed s) : (s.candidates now grace keep).Nodup :=
  nodup_append_filter (nodup_append_filter (nodup_expiredCandidates h) (nodup_classCandidates h _))
    (nodup_classCandidates h _)

theorem mem_candidates (h : Indexed s) :
    hash ∈ s.candidates now grace keep ↔ Evictable s now grace keep hash := by
  rw [State.candidates, mem_append_filter, State.pastCandidates, mem_append_filter,
    mem_expiredCandidates h, mem_classCandidates h, mem_classCandidates h, evictable_iff]
  tauto

/-! ## The walk -/

/-- Leaving `by_expiry` at the first unexpired approval misses no expired one. -/
theorem takeWhile_byExpiry (s : State) (now : UInt64) :
    (s.byExpiry.toList.takeWhile fun k => !decide (now.toNat < (ofLex k).1)) =
      s.byExpiry.toList.filter fun k => !decide (now.toNat < (ofLex k).1) := by
  apply OrdSet.takeWhile_eq_filter s.byExpiry.sorted
  intro x _ y _ hxy hx
  rw [decide_eq_true_eq] at hx ⊢
  rcases Prod.Lex.le_iff.mp hxy with hlt | ⟨heq, -⟩
  · exact lt_trans hx hlt
  · rwa [← heq]

/-- Leaving a class at the first young approval misses no old one. -/
theorem takeWhile_classRange (h : Indexed s) (now grace : UInt64) (c : Nat) :
    ((s.classRange c).takeWhile fun k =>
        !decide (State.age now (ofLex (ofLex k).2).1 < grace.toNat)) =
      (s.classRange c).filter fun k =>
        !decide (State.age now (ofLex (ofLex k).2).1 < grace.toNat) := by
  apply OrdSet.takeWhile_eq_filter (OrdSet.range_sorted ..)
  intro x hx y hy hxy hyoung
  have hclass : (ofLex x).1 = (ofLex y).1 :=
    ((mem_classRange h).mp hx).2.trans ((mem_classRange h).mp hy).2.symm
  rw [decide_eq_true_eq] at hyoung ⊢
  have htime : (ofLex (ofLex x).2).1 ≤ (ofLex (ofLex y).2).1 := by
    rcases Prod.Lex.le_iff.mp hxy with hlt | ⟨-, hle⟩
    · omega
    · rcases Prod.Lex.le_iff.mp hle with hlt | ⟨heq, -⟩
      · exact le_of_lt hlt
      · exact le_of_eq heq
  simp only [State.age] at hyoung ⊢
  omega

theorem expiredVictims_eq (h : Indexed s) (needed : Nat) (now : UInt64) (keep : List Hash) :
    s.expiredVictims needed now keep = (s.expiredCandidates now keep).take needed := by
  rw [State.expiredVictims, pick_eq (Nat.zero_le _) (nodup_expiryHash h) (fun _ _ _ _ => rfl),
    nil_append, takeWhile_byExpiry]
  rfl

theorem classVictims_eq (h : Indexed s) (needed : Nat) (now grace : UInt64) (keep : List Hash)
    (names : List Hash) (c : Nat) :
    s.classVictims needed now grace keep (names.take needed) c =
      (names ++ (s.classCandidates now grace keep c).filter
        fun hash => !names.contains hash).take needed := by
  rw [State.classVictims, pick_take_eq names (nodup_classRange h c), takeWhile_classRange h,
    State.classCandidates, filter_filter]
  congr 3
  funext hash
  rw [Bool.not_or, Bool.and_comm]

/-- The walk finds the first approvals that may go, up to the number needed. -/
theorem victims_eq (h : Indexed s) (needed : Nat) (now grace : UInt64) (keep : List Hash) :
    s.victims needed now grace keep = (s.candidates now grace keep).take needed := by
  rw [State.victims, foldl_cons, foldl_cons, foldl_nil, expiredVictims_eq h,
    classVictims_eq h, classVictims_eq h]
  rfl

end Candidates

end PrivacySuite.Reth.Approvals
