import Mathlib

/-!
# Rows with keys and references

A table is a list of rows with a key no two rows share; looking a key up finds the row
that has it (`find?_key`).

A reference to a row of the same table is a partial function `next` on the keys, and the
rows a cascading delete removes are those that lead to the deleted one. `trail` is what is
passed within a number of steps, `Leads` what is reached at all. When `next` is defined on
finitely many points, as many steps as there are such points reach everything that is
reached (`mem_trail_iff`): the first visit of a point comes after pairwise distinct ones.
-/

namespace Relational

open List

/-! ## Keys -/

theorem find?_key {ρ κ : Type} [DecidableEq κ] {key : ρ → κ} {rows : List ρ}
    (hkey : (rows.map key).Nodup) {k : κ} {row : ρ} :
    rows.find? (fun r => decide (key r = k)) = some row ↔ row ∈ rows ∧ key row = k := by
  have hfinds : ∀ {found}, rows.find? (fun r => decide (key r = k)) = some found →
      found ∈ rows ∧ key found = k := by
    intro found h
    have hk := find?_some h
    exact ⟨mem_of_find?_eq_some h, of_decide_eq_true hk⟩
  constructor
  · exact hfinds
  · rintro ⟨hrow, hk⟩
    obtain ⟨found, hfound⟩ : ∃ found, rows.find? (fun r => decide (key r = k)) = some found :=
      Option.isSome_iff_exists.mp (find?_isSome.mpr ⟨row, hrow, decide_eq_true hk⟩)
    obtain ⟨hmem, hsame⟩ := hfinds hfound
    rw [hfound, inj_on_of_nodup_map hkey hmem hrow (hsame.trans hk.symm)]

/-! ## Rows that come and go -/

theorem eq_of_added {ρ : Type} {rows : List ρ} {row new : ρ}
    (h : ¬ (row ∈ rows ↔ row ∈ new :: rows)) : row = new := by
  rw [mem_cons] at h
  by_contra hother
  exact h ⟨.inr, fun hrow => hrow.resolve_left hother⟩

theorem of_removed {present stays : Prop} (h : ¬ (present ↔ present ∧ stays)) :
    present ∧ ¬ stays := by
  rw [iff_self_and, Classical.not_imp] at h
  exact h

/-! ## Trails -/

variable {α : Type} (next : α → Option α)

/-- The points passed from `a` within `n` steps. -/
def trail : Nat → α → List α
  | 0, a => [a]
  | n + 1, a =>
      a :: match next a with
        | none => []
        | some b => trail n b

/-- `b` is reached from `a`. -/
def Leads : α → α → Prop := Relation.ReflTransGen fun a b => next a = some b

def after (n : Nat) (a : α) : Option α := (fun point => point.bind next)^[n] (some a)

variable {next} {a b c : α} {n : Nat}

theorem after_succ : after next (n + 1) a = (after next n a).bind next := by
  unfold after
  rw [Function.iterate_succ_apply']

theorem after_succ_of_next (h : next a = some b) : after next (n + 1) a = after next n b := by
  unfold after
  rw [Function.iterate_succ_apply, Option.bind_some, h]

/-- From equal points on, the steps are the same. -/
theorem after_add {i j : Nat} (h : after next i a = after next j a) (k : Nat) :
    after next (k + i) a = after next (k + j) a := by
  unfold after at h ⊢
  rw [Function.iterate_add_apply, Function.iterate_add_apply, h]

theorem after_add_of_none {i : Nat} (h : after next i a = none) (k : Nat) :
    after next (i + k) a = none := by
  induction k with
  | zero => exact h
  | succ k ih => rw [← Nat.add_assoc, after_succ, ih, Option.bind_none]

theorem mem_trail : b ∈ trail next n a ↔ ∃ k ≤ n, after next k a = some b := by
  induction n generalizing a with
  | zero =>
    constructor
    · intro h
      obtain rfl := mem_singleton.mp h
      exact ⟨0, le_rfl, rfl⟩
    · rintro ⟨k, hk, h⟩
      obtain rfl : k = 0 := by omega
      exact mem_singleton.mpr (Option.some.inj h).symm
  | succ n ih =>
    rw [trail, mem_cons]
    constructor
    · rintro (rfl | h)
      · exact ⟨0, Nat.zero_le _, rfl⟩
      · split at h
        · cases h
        · rename_i c hnext
          obtain ⟨k, hk, hafter⟩ := ih.mp h
          exact ⟨k + 1, by omega, (after_succ_of_next hnext).trans hafter⟩
    · rintro ⟨k, hk, h⟩
      cases k with
      | zero => exact .inl (Option.some.inj h).symm
      | succ k =>
        right
        cases hnext : next a with
        | none =>
          have hend : after next 1 a = none := by
            rw [after_succ, after, Function.iterate_zero, id, Option.bind_some, hnext]
          rw [Nat.add_comm, after_add_of_none hend] at h
          cases h
        | some c => exact ih.mpr ⟨k, by omega, (after_succ_of_next hnext).symm.trans h⟩

theorem leads_iff_after : Leads next a b ↔ ∃ n, after next n a = some b := by
  constructor
  · intro h
    induction h with
    | refl => exact ⟨0, rfl⟩
    | tail _ hnext ih =>
      obtain ⟨n, hn⟩ := ih
      exact ⟨n + 1, by rw [after_succ, hn, Option.bind_some, hnext]⟩
  · rintro ⟨n, hn⟩
    induction n generalizing b with
    | zero =>
      obtain rfl := Option.some.inj hn
      exact .refl
    | succ n ih =>
      rw [after_succ, Option.bind_eq_some_iff] at hn
      obtain ⟨c, hc, hnext⟩ := hn
      exact (ih hc).tail hnext

/-- The first visit of a point comes within as many steps as there are points to step from. -/
theorem first_visit_le [DecidableEq α] {keys : List α}
    (hkeys : ∀ a b, next a = some b → a ∈ keys) (hvisit : after next n a = some b)
    (hfirst : ∀ k < n, after next k a ≠ some b) : n ≤ keys.length := by
  have hgoesOn : ∀ i ≤ n, after next i a ≠ none := by
    intro i hi hnone
    have hn := after_add_of_none hnone (n - i)
    rw [show i + (n - i) = n by omega, hvisit] at hn
    cases hn
  -- before the visit there is a point to step from at each step
  have hpoint : ∀ i < n, ∃ p ∈ keys, after next i a = some p := by
    intro i hi
    obtain ⟨p, hp⟩ := Option.ne_none_iff_exists'.mp (hgoesOn i (by omega))
    obtain ⟨q, hq⟩ := Option.ne_none_iff_exists'.mp (hgoesOn (i + 1) hi)
    rw [after_succ, hp, Option.bind_some] at hq
    exact ⟨p, hkeys p q hq, hp⟩
  -- no two of them are equal, or the point would be visited earlier
  have hinj : Set.InjOn (fun i => after next i a) (Finset.range n : Set Nat) := by
    intro i hi j hj hij
    rw [Finset.mem_coe, Finset.mem_range] at hi hj
    by_contra hne
    rcases Nat.lt_or_gt_of_ne hne with hlt | hlt
    · refine hfirst (n - j + i) (by omega) ?_
      rw [after_add hij, show n - j + j = n by omega, hvisit]
    · refine hfirst (n - i + j) (by omega) ?_
      rw [after_add hij.symm, show n - i + i = n by omega, hvisit]
  have hmaps : ∀ i ∈ Finset.range n, after next i a ∈ (keys.map some).toFinset := by
    intro i hi
    obtain ⟨p, hp, heq⟩ := hpoint i (Finset.mem_range.mp hi)
    rw [mem_toFinset, heq]
    exact mem_map_of_mem hp
  calc n = (Finset.range n).card := (Finset.card_range n).symm
    _ ≤ (keys.map some).toFinset.card := Finset.card_le_card_of_injOn _ hmaps hinj
    _ ≤ (keys.map some).length := toFinset_card_le _
    _ = keys.length := length_map _

theorem mem_trail_iff [DecidableEq α] {keys : List α}
    (hkeys : ∀ a b, next a = some b → a ∈ keys) :
    b ∈ trail next keys.length a ↔ Leads next a b := by
  rw [leads_iff_after, mem_trail]
  constructor
  · rintro ⟨k, -, hk⟩
    exact ⟨k, hk⟩
  · intro h
    refine ⟨Nat.find h, first_visit_le hkeys (Nat.find_spec h) ?_, Nat.find_spec h⟩
    exact fun k hk => Nat.find_min h hk

/-- A point that reaches `b` by another function reaches it by this one, if the two agree
on every point that stays clear of what was taken away. -/
theorem Leads.congr {next' : α → Option α} {P : α → Prop} (ha : P a)
    (hclosed : ∀ a b, P a → next a = some b → P b) (hagree : ∀ a, P a → next' a = next a) :
    Leads next' a b ↔ Leads next a b := by
  have hleads : ∀ {f g : α → Option α}, (∀ a b, P a → f a = some b → P b) →
      (∀ a, P a → g a = f a) → Leads f a b → P b ∧ Leads g a b := by
    intro f g hstep heq h
    induction h with
    | refl => exact ⟨ha, .refl⟩
    | tail _ hnext ih => exact ⟨hstep _ _ ih.1 hnext, ih.2.tail ((heq _ ih.1).trans hnext)⟩
  constructor
  · intro h
    refine (hleads (fun a b hP hnext => ?_) (fun a hP => (hagree a hP).symm) h).2
    exact hclosed a b hP ((hagree a hP).symm.trans hnext)
  · intro h
    exact (hleads hclosed hagree h).2

end Relational
