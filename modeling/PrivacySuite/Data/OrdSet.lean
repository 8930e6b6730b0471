import Mathlib

/-!
# Ordered sets

A set of keys kept in increasing order, each key once. The least key is the first one,
and a walk from the least key on that stops at the first key with some property misses no
key without it, when the keys above one with the property have it too
(`takeWhile_eq_filter`).

`pick` is such a walk that collects names on its way, until it has enough of them.
-/

namespace Data

open List

structure OrdSet (K : Type) [LinearOrder K] where
  toList : List K
  sorted : toList.Pairwise (· < ·)

namespace OrdSet

variable {K : Type} [LinearOrder K]

instance : Membership K (OrdSet K) := ⟨fun s k => k ∈ s.toList⟩

instance : EmptyCollection (OrdSet K) := ⟨⟨[], List.Pairwise.nil⟩⟩

def size (s : OrdSet K) : Nat := s.toList.length

def first (s : OrdSet K) : Option K := s.toList.head?

variable {s : OrdSet K} {k x : K}

theorem mem_toList : k ∈ s.toList ↔ k ∈ s := Iff.rfl

instance (k : K) (s : OrdSet K) : Decidable (k ∈ s) := inferInstanceAs (Decidable (k ∈ s.toList))

@[simp] theorem not_mem_empty (k : K) : k ∉ (∅ : OrdSet K) := not_mem_nil

theorem nodup (s : OrdSet K) : s.toList.Nodup := s.sorted.imp ne_of_lt

@[ext] theorem ext {t : OrdSet K} (h : ∀ k, k ∈ s ↔ k ∈ t) : s = t := by
  obtain ⟨xs, hxs⟩ := s
  obtain ⟨ys, hys⟩ := t
  have hsame : xs = ys := hxs.sortedLT.eq_of_mem_iff hys.sortedLT h
  subst hsame
  rfl

/-! ## Changing a set -/

theorem pairwise_orderedInsert {xs : List K} (hxs : xs.Pairwise (· < ·)) (hk : k ∉ xs) :
    (xs.orderedInsert (· ≤ ·) k).Pairwise (· < ·) := by
  have hle : (xs.orderedInsert (· ≤ ·) k).Pairwise (· ≤ ·) :=
    List.Pairwise.orderedInsert k xs (hxs.imp le_of_lt)
  have hnodup : (xs.orderedInsert (· ≤ ·) k).Nodup := by
    rw [(perm_orderedInsert (· ≤ ·) k xs).nodup_iff, nodup_cons]
    exact ⟨hk, hxs.imp ne_of_lt⟩
  exact (hle.and hnodup).imp fun h => lt_of_le_of_ne h.1 h.2

def insert (k : K) (s : OrdSet K) : OrdSet K :=
  if h : k ∈ s.toList then s
  else ⟨s.toList.orderedInsert (· ≤ ·) k, pairwise_orderedInsert s.sorted h⟩

def erase (k : K) (s : OrdSet K) : OrdSet K := ⟨s.toList.erase k, s.sorted.erase k⟩

@[simp] theorem mem_insert : x ∈ s.insert k ↔ x = k ∨ x ∈ s := by
  unfold insert
  split
  · rename_i hk
    constructor
    · exact .inr
    · rintro (rfl | hx)
      · exact hk
      · exact hx
  · exact mem_orderedInsert _

@[simp] theorem mem_erase : x ∈ s.erase k ↔ x ≠ k ∧ x ∈ s :=
  s.nodup.mem_erase_iff

theorem size_insert (h : k ∉ s) : (s.insert k).size = s.size + 1 := by
  have h' : k ∉ s.toList := h
  simp [insert, size, h', orderedInsert_length]

theorem size_erase (h : k ∈ s) : (s.erase k).size + 1 = s.size := by
  have hlen := length_erase_of_mem (mem_toList.mpr h)
  have hpos := length_pos_of_mem (mem_toList.mpr h)
  simp only [size, erase, hlen]
  omega

/-- `insert` of a key that may be missing. -/
def extend (s : OrdSet K) : Option K → OrdSet K
  | none => s
  | some k => s.insert k

/-- `erase` of a key that may be missing. -/
def drop (s : OrdSet K) : Option K → OrdSet K
  | none => s
  | some k => s.erase k

theorem size_extend {k : Option K} (h : ∀ x, k = some x → x ∉ s) :
    (s.extend k).size = s.size + if k.isSome then 1 else 0 := by
  cases k with
  | none => rfl
  | some k => exact size_insert (h k rfl)

theorem size_drop {k : Option K} (h : ∀ x, k = some x → x ∈ s) :
    (s.drop k).size = s.size - if k.isSome then 1 else 0 := by
  cases k with
  | none => rfl
  | some k => exact Nat.eq_sub_of_add_eq (size_erase (h k rfl))

@[simp] theorem mem_extend {k : Option K} : x ∈ s.extend k ↔ k = some x ∨ x ∈ s := by
  cases k with
  | none => simp [extend]
  | some k => simp [extend, eq_comm]

@[simp] theorem mem_drop {k : Option K} : x ∈ s.drop k ↔ k ≠ some x ∧ x ∈ s := by
  cases k with
  | none => simp [drop]
  | some k => simp [drop, eq_comm]

/-! ## The least key -/

theorem first_eq_some : s.first = some k ↔ k ∈ s ∧ ∀ x ∈ s, k ≤ x := by
  obtain ⟨xs, hxs⟩ := s
  cases xs with
  | nil =>
    constructor
    · intro h
      cases h
    · rintro ⟨h, -⟩
      exact absurd h not_mem_nil
  | cons y ys =>
    have hleast : ∀ x ∈ y :: ys, y ≤ x := by
      intro x hx
      rcases mem_cons.mp hx with rfl | hx
      · exact le_refl _
      · exact le_of_lt (rel_of_pairwise_cons hxs hx)
    constructor
    · intro h
      obtain rfl : y = k := Option.some.inj h
      exact ⟨mem_cons_self, hleast⟩
    · rintro ⟨hk, hmin⟩
      have heq : y = k := le_antisymm (hleast k hk) (hmin y mem_cons_self)
      exact congrArg some heq

theorem first_eq_none : s.first = none ↔ ∀ x, x ∉ s := by
  show s.toList.head? = none ↔ ∀ x, x ∉ s.toList
  rw [head?_eq_none_iff, eq_nil_iff_forall_not_mem]

/-! ## Walking until a key stops the walk -/

def range (s : OrdSet K) (low high : K) : List K :=
  s.toList.filter fun k => decide (low ≤ k) && decide (k ≤ high)

theorem mem_range {low high : K} : k ∈ s.range low high ↔ k ∈ s ∧ low ≤ k ∧ k ≤ high := by
  simp [range, mem_toList]

theorem range_sorted (s : OrdSet K) (low high : K) : (s.range low high).Pairwise (· < ·) :=
  s.sorted.filter _

theorem takeWhile_eq_filter {xs : List K} (hxs : xs.Pairwise (· < ·)) {stop : K → Bool}
    (hstop : ∀ x ∈ xs, ∀ y ∈ xs, x ≤ y → stop x = true → stop y = true) :
    xs.takeWhile (fun x => !stop x) = xs.filter (fun x => !stop x) := by
  induction xs with
  | nil => rfl
  | cons x xs ih =>
    rw [pairwise_cons] at hxs
    cases hx : stop x with
    | false =>
      have hrest := ih hxs.2 fun y hy z hz =>
        hstop y (mem_cons_of_mem x hy) z (mem_cons_of_mem x hz)
      simp [hx, hrest]
    | true =>
      have hnone : xs.filter (fun y => !stop y) = [] := by
        rw [filter_eq_nil_iff]
        intro y hy
        have hy' : stop y = true := by
          apply hstop x mem_cons_self y (mem_cons_of_mem x hy) _ hx
          exact le_of_lt (hxs.1 y hy)
        simp [hy']
      simp [hx, hnone]

end OrdSet

/-! ## Collecting names on the way -/

section Pick

variable {κ ν : Type} (wanted : Nat) (stop : κ → Bool) (name : κ → ν) (skip : List ν → ν → Bool)

/-- Walks the keys and adds their names to `out`, until there are as many as wanted or a
key stops the walk; `skip` tells from the names so far which to pass over. -/
def pick : List κ → List ν → List ν
  | [], out => out
  | k :: ks, out =>
      if out.length = wanted ∨ stop k = true then out
      else pick ks (if skip out (name k) then out else out ++ [name k])

variable {wanted stop name skip}

theorem pick_eq {ks : List κ} {out : List ν} (hlen : out.length ≤ wanted)
    (hnames : (ks.map name).Nodup)
    (hskip : ∀ out b c, b ≠ c → skip (out ++ [c]) b = skip out b) :
    pick wanted stop name skip ks out =
      (out ++ ((ks.takeWhile fun k => !stop k).map name).filter fun b => !skip out b).take
        wanted := by
  induction ks generalizing out with
  | nil => simp [pick, take_of_length_le hlen]
  | cons k ks ih =>
    rw [map_cons, nodup_cons] at hnames
    unfold pick
    by_cases hfull : out.length = wanted
    · rw [if_pos (.inl hfull), ← hfull, take_left]
    · cases hk : stop k with
      | true => simp [hk, take_of_length_le hlen]
      | false =>
        rw [if_neg (by simp [hfull])]
        cases hs : skip out (name k) with
        | true =>
          rw [if_pos rfl, ih hlen hnames.2]
          simp [hk, hs]
        | false =>
          rw [if_neg (by simp), ih (by simp; omega) hnames.2]
          -- the names behind are other names, so passing over is decided as before
          have hsame : (((ks.takeWhile fun k => !stop k).map name).filter
                fun b => !skip (out ++ [name k]) b) =
              ((ks.takeWhile fun k => !stop k).map name).filter fun b => !skip out b := by
            apply filter_congr
            intro b hb
            obtain ⟨x, hx, rfl⟩ := mem_map.mp hb
            have hne : name x ≠ name k := by
              intro heq
              apply hnames.1
              rw [← heq]
              exact mem_map_of_mem ((takeWhile_sublist _).subset hx)
            rw [hskip out _ _ hne]
          rw [hsame]
          simp [hk, hs]

theorem pick_take_eq [DecidableEq ν] {hold : ν → Bool} {ks : List κ} (names : List ν)
    (hnames : (ks.map name).Nodup) :
    pick wanted stop name (fun out b => hold b || out.contains b) ks (names.take wanted) =
      (names ++ ((ks.takeWhile fun k => !stop k).map name).filter
        fun b => !(hold b || names.contains b)).take wanted := by
  have hskip : ∀ (out : List ν) (b c : ν), b ≠ c →
      (hold b || (out ++ [c]).contains b) = (hold b || out.contains b) := by
    intro out b c hbc
    simp [hbc]
  rw [pick_eq (by simp) hnames hskip]
  by_cases hlen : names.length ≤ wanted
  · rw [take_of_length_le hlen]
  · -- the list alone is enough, and the walk ends before its first key
    have hfull : (names.take wanted).length = wanted := by
      rw [length_take]
      omega
    rw [take_append_of_le_length (by omega), take_append_of_le_length (by omega),
      take_take, min_self]

theorem nodup_append_filter [DecidableEq ν] {xs ys : List ν} (hxs : xs.Nodup) (hys : ys.Nodup) :
    (xs ++ ys.filter fun b => !xs.contains b).Nodup := by
  rw [nodup_append]
  refine ⟨hxs, hys.filter _, ?_⟩
  intro x hx y hy hxy
  rw [mem_filter] at hy
  simp [← hxy, hx] at hy

theorem mem_append_filter [DecidableEq ν] {xs ys : List ν} {b : ν} :
    b ∈ xs ++ ys.filter (fun b => !xs.contains b) ↔ b ∈ xs ∨ b ∈ ys := by
  simp only [mem_append, mem_filter, Bool.not_eq_true', contains_eq_mem,
    decide_eq_false_iff_not]
  tauto

end Pick

end Data
