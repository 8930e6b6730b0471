import Mathlib

/-!
# One reader of a bounded log

A log numbers what is appended from one on and keeps the numbers from `low` on. A reader
takes the oldest number it has not had, or passes it over as lost; what the log gives up
before the reader came to it is lost too. However these steps interleave, every number is
handed over once, lost once, or still there and not taken.
-/

namespace Data

open List

structure Feed where
  low : Nat
  next : Nat
  cursor : Nat
  handed : List Nat
  lost : List Nat

namespace Feed

/-- The number is still there and not taken. -/
def Waits (f : Feed) (q : Nat) : Prop := f.low ≤ q ∧ q < f.next ∧ f.cursor < q

/-- How often the number was handed over or lost. -/
def gone (f : Feed) (q : Nat) : Nat := f.handed.count q + f.lost.count q

/-- The oldest number that waits, if any does. -/
def oldest (f : Feed) : Nat := max f.low (f.cursor + 1)

inductive Step : Feed → Feed → Prop
  | append (f : Feed) : Step f { f with next := f.next + 1 }
  | drop (f : Feed) (h : f.low < f.next) :
      Step f { f with
        low := f.low + 1
        lost := if f.cursor < f.low then f.lost ++ [f.low] else f.lost }
  | take (f : Feed) (h : f.oldest < f.next) :
      Step f { f with cursor := f.oldest, handed := f.handed ++ [f.oldest] }
  | skip (f : Feed) (h : f.oldest < f.next) :
      Step f { f with cursor := f.oldest, lost := f.lost ++ [f.oldest] }

/-- Every number so far waits and is not gone, or is gone once. -/
structure Counted (f : Feed) : Prop where
  waiting : ∀ q, f.Waits q → f.gone q = 0
  settled : ∀ q, 1 ≤ q → q < f.next → ¬ f.Waits q → f.gone q = 1
  outside : ∀ q, q = 0 ∨ f.next ≤ q → f.gone q = 0

/-- Nothing is forgotten and nothing counted twice, and the reader goes forward. -/
structure Accounted (f : Feed) : Prop where
  counted : Counted f
  low_pos : 1 ≤ f.low
  low_le : f.low ≤ f.next
  cursor_lt : f.cursor < f.next
  taken : ∀ q ∈ f.handed, q ≤ f.cursor
  increasing : f.handed.Pairwise (· < ·)

theorem accounted_init : Accounted ⟨1, 1, 0, [], []⟩ := by
  refine ⟨⟨?_, ?_, ?_⟩, le_refl 1, le_refl 1, Nat.zero_lt_one, by simp, List.Pairwise.nil⟩
  · intro q _
    rfl
  · intro q hpos hlt
    exact absurd hpos (Nat.not_le.mpr hlt)
  · intro q _
    rfl

section Steps

variable {f f' : Feed}

theorem Counted.move (h : Counted f) {p : Nat} (hpos : 1 ≤ p) (hp : f.Waits p)
    (hnext : f'.next = f.next) (hwaits : ∀ q, f'.Waits q ↔ f.Waits q ∧ q ≠ p)
    (hgone : ∀ q, f'.gone q = f.gone q + if p = q then 1 else 0) : Counted f' := by
  refine ⟨?_, ?_, ?_⟩
  · intro q hq
    obtain ⟨hq, hne⟩ := (hwaits q).mp hq
    rw [hgone, h.waiting q hq, if_neg (Ne.symm hne)]
  · intro q hq hlt hnot
    rw [hnext] at hlt
    by_cases heq : p = q
    · rw [hgone, if_pos heq, ← heq, h.waiting p hp]
    · have hnot : ¬ f.Waits q := fun hw => hnot ((hwaits q).mpr ⟨hw, Ne.symm heq⟩)
      rw [hgone, if_neg heq, h.settled q hq hlt hnot]
  · intro q hq
    rw [hnext] at hq
    have hne : p ≠ q := by
      rintro rfl
      have := hp.2.1
      omega
    rw [hgone, if_neg hne, h.outside q hq]

theorem gone_lose (p q : Nat) :
    gone { f with lost := f.lost ++ [p] } q = f.gone q + if p = q then 1 else 0 := by
  simp only [gone, count_append, count_singleton, beq_iff_eq]
  omega

theorem gone_hand (p q : Nat) :
    gone { f with handed := f.handed ++ [p] } q = f.gone q + if p = q then 1 else 0 := by
  simp only [gone, count_append, count_singleton, beq_iff_eq]
  omega

theorem Accounted.append (h : Accounted f) : Accounted { f with next := f.next + 1 } := by
  refine ⟨⟨?_, ?_, ?_⟩, h.low_pos, Nat.le_succ_of_le h.low_le, Nat.lt_succ_of_lt h.cursor_lt,
    h.taken, h.increasing⟩
  · rintro q ⟨hlow, hnext, hcursor⟩
    by_cases hold : q < f.next
    · exact h.counted.waiting q ⟨hlow, hold, hcursor⟩
    · exact h.counted.outside q (.inr (Nat.not_lt.mp hold))
  · intro q hpos hnext hnot
    have hold : q < f.next := by
      by_contra hnew
      have heq : q = f.next := Nat.le_antisymm (Nat.le_of_lt_succ hnext) (Nat.not_lt.mp hnew)
      exact hnot ⟨heq ▸ h.low_le, hnext, heq ▸ h.cursor_lt⟩
    exact h.counted.settled q hpos hold fun hw => hnot ⟨hw.1, hnext, hw.2.2⟩
  · intro q hq
    exact h.counted.outside q (hq.imp_right Nat.le_of_succ_le)

theorem Accounted.drop (h : Accounted f) (hroom : f.low < f.next) :
    Accounted { f with
      low := f.low + 1
      lost := if f.cursor < f.low then f.lost ++ [f.low] else f.lost } := by
  refine ⟨?_, Nat.le_succ_of_le h.low_pos, hroom, h.cursor_lt, h.taken, h.increasing⟩
  by_cases hlost : f.cursor < f.low
  · simp only [if_pos hlost]
    refine h.counted.move h.low_pos ⟨le_refl _, hroom, hlost⟩ (by rfl) ?_ (gone_lose f.low)
    intro q
    simp only [Waits]
    omega
  · -- the reader has had it
    have hwaits : ∀ q, Waits { f with low := f.low + 1, lost := f.lost } q ↔ f.Waits q := by
      intro q
      simp only [Waits]
      omega
    simp only [if_neg hlost]
    refine ⟨fun q hq => h.counted.waiting q ((hwaits q).mp hq), fun q hpos hlt hnot => ?_,
      h.counted.outside⟩
    exact h.counted.settled q hpos hlt fun hw => hnot ((hwaits q).mpr hw)

theorem cursor_lt_oldest (f : Feed) : f.cursor < f.oldest :=
  Nat.lt_of_succ_le (le_max_right f.low (f.cursor + 1))

theorem cursor_le_of_steps (h : Relation.ReflTransGen Step f f') : f.cursor ≤ f'.cursor := by
  induction h with
  | refl => exact le_refl _
  | @tail g g' _ hstep ih =>
    refine ih.trans ?_
    cases hstep with
    | append | drop => exact le_refl _
    | take | skip => exact le_of_lt (cursor_lt_oldest g)

theorem oldest_waits (hroom : f.oldest < f.next) : f.Waits f.oldest :=
  ⟨le_max_left _ _, hroom, cursor_lt_oldest f⟩

theorem waits_oldest (q : Nat) :
    Waits { f with cursor := f.oldest } q ↔ f.Waits q ∧ q ≠ f.oldest := by
  simp only [Waits, oldest]
  omega

theorem Accounted.take (h : Accounted f) (hroom : f.oldest < f.next) :
    Accounted { f with cursor := f.oldest, handed := f.handed ++ [f.oldest] } := by
  have hold := cursor_lt_oldest f
  have hpos : 1 ≤ f.oldest := h.low_pos.trans (le_max_left _ _)
  refine ⟨?_, h.low_pos, h.low_le, hroom, ?_, ?_⟩
  · exact h.counted.move hpos (oldest_waits hroom) rfl waits_oldest (gone_hand f.oldest)
  · intro q hq
    rcases mem_append.mp hq with hq | hq
    · exact (h.taken q hq).trans (le_of_lt hold)
    · exact le_of_eq (mem_singleton.mp hq)
  · rw [pairwise_append]
    refine ⟨h.increasing, pairwise_singleton _ _, ?_⟩
    intro q hq p hp
    rw [mem_singleton.mp hp]
    exact lt_of_le_of_lt (h.taken q hq) hold

theorem Accounted.skip (h : Accounted f) (hroom : f.oldest < f.next) :
    Accounted { f with cursor := f.oldest, lost := f.lost ++ [f.oldest] } := by
  have hold := cursor_lt_oldest f
  have hpos : 1 ≤ f.oldest := h.low_pos.trans (le_max_left _ _)
  refine ⟨?_, h.low_pos, h.low_le, hroom, ?_, h.increasing⟩
  · exact h.counted.move hpos (oldest_waits hroom) rfl waits_oldest (gone_lose f.oldest)
  · intro q hq
    exact (h.taken q hq).trans (le_of_lt hold)

theorem Accounted.step (h : Accounted f) (hstep : Step f f') : Accounted f' := by
  cases hstep with
  | append => exact h.append
  | drop hroom => exact h.drop hroom
  | take hroom => exact h.take hroom
  | skip hroom => exact h.skip hroom

theorem Accounted.steps (h : Accounted f) (hsteps : Relation.ReflTransGen Step f f') :
    Accounted f' := by
  induction hsteps with
  | refl => exact h
  | tail _ hstep ih => exact ih.step hstep

end Steps

end Feed

end Data
