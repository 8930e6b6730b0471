import Mathlib

/-!
# Maps and times

A Go map is the list of its entries, with distinct keys: `List.lookup` is the
index expression and `mapSet` the assignment `m[k] = v`. The order of the entries
is that of insertion; Go's own iteration order is random, and no modelled
function lets its result depend on it.

A `time.Time` is an instant together with the offset of its location from UTC.
Instants are counted in microseconds, the precision of a `TIMESTAMP` column.
-/

namespace Go

open List

section Maps

variable {κ ν : Type} [DecidableEq κ]

def mapSet : List (κ × ν) → κ → ν → List (κ × ν)
  | [], k, v => [(k, v)]
  | (k', v') :: rest, k, v => if k' = k then (k, v) :: rest else (k', v') :: mapSet rest k v

theorem lookup_mapSet_self (m : List (κ × ν)) (k : κ) (v : ν) :
    (mapSet m k v).lookup k = some v := by
  induction m with
  | nil => simp [mapSet]
  | cons entry rest ih =>
    obtain ⟨k', v'⟩ := entry
    by_cases h : k' = k
    · simp [mapSet, h]
    · have hne : (k == k') = false := beq_false_of_ne (Ne.symm h)
      simp [mapSet, h, lookup_cons, hne, ih]

variable {k : κ} {m : List (κ × ν)} {v : ν}

theorem lookup_eq_none_of_keys (h : ∀ entry ∈ m, entry.1 ≠ k) : m.lookup k = none := by
  rw [lookup_eq_none_iff]
  intro entry hentry
  exact bne_iff_ne.mpr (h entry hentry).symm

theorem lookup_eq_none_of_not_mem (h : k ∉ m.map Prod.fst) : m.lookup k = none :=
  lookup_eq_none_of_keys fun _ hentry heq => h (heq ▸ mem_map_of_mem hentry)

theorem lookup_mapSet_of_ne (m : List (κ × ν)) {k' : κ} (v : ν) (h : k' ≠ k) :
    (mapSet m k v).lookup k' = m.lookup k' := by
  have hne : (k' == k) = false := by simpa using h
  induction m with
  | nil => simp [mapSet, h]
  | cons entry rest ih =>
    obtain ⟨k'', v''⟩ := entry
    by_cases hk : k'' = k
    · simp [mapSet, hk, lookup_cons, hne]
    · simp [mapSet, hk, lookup_cons, ih]

theorem mem_keys_mapSet {k' : κ} :
    k' ∈ (mapSet m k v).map Prod.fst ↔ k' ∈ m.map Prod.fst ∨ k' = k := by
  induction m with
  | nil => simp [mapSet]
  | cons entry rest ih =>
    obtain ⟨k'', v''⟩ := entry
    by_cases hk : k'' = k
    · subst hk
      simp only [mapSet, if_true, map_cons, mem_cons]
      tauto
    · simp only [mapSet, hk, if_false, map_cons, mem_cons, ih]
      tauto

theorem nodup_keys_mapSet (h : (m.map Prod.fst).Nodup) (k : κ) (v : ν) :
    ((mapSet m k v).map Prod.fst).Nodup := by
  induction m with
  | nil => simp [mapSet]
  | cons entry rest ih =>
    obtain ⟨k', v'⟩ := entry
    rw [map_cons, nodup_cons] at h
    by_cases hk : k' = k
    · subst hk
      simpa [mapSet, nodup_cons] using h
    · simp only [mapSet, hk, if_false, map_cons, nodup_cons]
      refine ⟨?_, ih h.2⟩
      intro hmem
      rcases mem_keys_mapSet.mp hmem with hrest | heq
      · exact h.1 hrest
      · exact hk heq

theorem lookup_of_mem (h : (m.map Prod.fst).Nodup) {entry : κ × ν} (hentry : entry ∈ m) :
    m.lookup entry.1 = some entry.2 := by
  induction m with
  | nil => cases hentry
  | cons first rest ih =>
    obtain ⟨k, v⟩ := first
    rw [map_cons, nodup_cons] at h
    rcases mem_cons.mp hentry with rfl | hrest
    · simp
    · have hmem : entry.1 ∈ rest.map Prod.fst := mem_map_of_mem hrest
      have hne : (entry.1 == k) = false := by
        simpa using fun heq : entry.1 = k => h.1 (heq ▸ hmem)
      rw [lookup_cons, hne]
      exact ih h.2 hrest

theorem mem_of_lookup (h : m.lookup k = some v) : (k, v) ∈ m := by
  obtain ⟨before, after, rfl, -⟩ := lookup_eq_some_iff.mp h
  simp

theorem mem_of_mem_mapSet {entry : κ × ν} (h : entry ∈ mapSet m k v) :
    entry ∈ m ∨ entry = (k, v) := by
  induction m with
  | nil => exact .inr (by simpa [mapSet] using h)
  | cons first rest ih =>
    obtain ⟨k', v'⟩ := first
    by_cases hk : k' = k
    · simp only [mapSet, hk, if_true, mem_cons] at h
      rcases h with hnew | hrest
      · exact .inr hnew
      · exact .inl (mem_cons_of_mem _ hrest)
    · simp only [mapSet, hk, if_false, mem_cons] at h
      rcases h with hfirst | hrest
      · exact .inl (by simp [hfirst])
      · exact (ih hrest).imp_left (mem_cons_of_mem _)

theorem mapSet_of_not_mem (h : k ∉ m.map Prod.fst) (v : ν) : mapSet m k v = m ++ [(k, v)] := by
  induction m with
  | nil => rfl
  | cons entry rest ih =>
    obtain ⟨k', v'⟩ := entry
    simp only [map_cons, mem_cons, not_or] at h
    have hne : k' ≠ k := fun heq => h.1 heq.symm
    simp [mapSet, hne, ih h.2]

theorem foldl_mapSet_copy {α : Type} (f : α → ν) (m : List (κ × α)) {acc : List (κ × ν)}
    (h : (acc.map Prod.fst ++ m.map Prod.fst).Nodup) :
    m.foldl (fun acc entry => mapSet acc entry.1 (f entry.2)) acc =
      acc ++ m.map fun entry => (entry.1, f entry.2) := by
  induction m generalizing acc with
  | nil => simp
  | cons entry rest ih =>
    have hnew : entry.1 ∉ acc.map Prod.fst := by
      intro hmem
      exact (nodup_append.mp h).2.2 entry.1 hmem entry.1 (by simp) rfl
    rw [foldl_cons, mapSet_of_not_mem hnew, ih (by simpa using h)]
    simp

end Maps

theorem mapM_eq_none {α β : Type} {f : α → Option β} {xs : List α} :
    xs.mapM f = none ↔ ∃ x ∈ xs, f x = none := by
  induction xs with
  | nil => simp
  | cons x xs ih =>
    rw [mapM_cons, exists_mem_cons_iff, ← ih]
    cases f x with
    | none => simp
    | some y => cases xs.mapM f <;> simp

/-! ## Times -/

/-- The instant, and the offset of its location. -/
structure Time where
  instant : Int
  offset : Int := 0
  deriving DecidableEq, Repr

namespace Time

/-- The zero `time.Time`, the first instant of year one. -/
def zero : Time := ⟨-62135596800000000, 0⟩

def isZero (t : Time) : Bool := t.instant == zero.instant

def add (t : Time) (d : Int) : Time := { t with instant := t.instant + d }

def before (t u : Time) : Bool := decide (t.instant < u.instant)

def after (t u : Time) : Bool := decide (u.instant < t.instant)

/-- What the driver writes into a `TIMESTAMP` column: the date and the clock time
in the value's own location, without the location. -/
def wallClock (t : Time) : Int := t.instant + t.offset

/-- What is read back from such a column: the same clock time, in UTC. -/
def ofWallClock (w : Int) : Time := ⟨w, 0⟩

end Time

def minute : Int := 60000000

end Go
