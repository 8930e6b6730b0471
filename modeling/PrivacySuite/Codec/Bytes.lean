import Mathlib

/-!
# Byte formats

The pieces a binary format is written from: numbers of a fixed width with the
highest byte first, fields of a fixed length, and rows of records of one length.
Each comes with the two facts a codec needs: what is written is read back, and
whatever can be read is something written.
-/

namespace Codec

open List

/-! ## Big-endian numbers -/

/-- The low `n` bytes of a number, the highest first. -/
def beBytes : Nat → Nat → List UInt8
  | 0, _ => []
  | n + 1, v => beBytes n (v / 256) ++ [UInt8.ofNat v]

def beNat (bytes : List UInt8) : Nat := bytes.foldl (fun v b => 256 * v + b.toNat) 0

@[simp] theorem length_beBytes (n v : Nat) : (beBytes n v).length = n := by
  induction n generalizing v with
  | zero => rfl
  | succ n ih => rw [beBytes, length_append, ih, length_singleton]

@[simp] theorem beNat_nil : beNat [] = 0 := rfl

@[simp] theorem beNat_concat (bytes : List UInt8) (b : UInt8) :
    beNat (bytes ++ [b]) = 256 * beNat bytes + b.toNat := by
  rw [beNat, foldl_append]
  rfl

theorem beNat_lt (bytes : List UInt8) : beNat bytes < 256 ^ bytes.length := by
  induction bytes using List.reverseRecOn with
  | nil => decide
  | append_singleton bytes b ih =>
    have hb := b.toNat_lt
    rw [beNat_concat, length_append, length_singleton, pow_succ]
    omega

theorem beNat_beBytes (n v : Nat) : beNat (beBytes n v) = v % 256 ^ n := by
  induction n generalizing v with
  | zero => rw [beBytes, beNat_nil, pow_zero, Nat.mod_one]
  | succ n ih =>
    have hlow : (UInt8.ofNat v).toNat = v % 256 := UInt8.toNat_ofNat'
    rw [beBytes, beNat_concat, ih, hlow, pow_succ, mul_comm (256 ^ n), Nat.mod_mul]
    omega

variable {n v : Nat} {bytes : List UInt8} {α : Type*} {write : α → List UInt8}

theorem beNat_beBytes_of_lt (h : v < 256 ^ n) : beNat (beBytes n v) = v := by
  rw [beNat_beBytes, Nat.mod_eq_of_lt h]

/-- Every string of bytes is the spelling of the number it spells. -/
theorem beBytes_beNat (bytes : List UInt8) : beBytes bytes.length (beNat bytes) = bytes := by
  induction bytes using List.reverseRecOn with
  | nil => rfl
  | append_singleton bytes b ih =>
    have hb := b.toNat_lt
    have hhigh : (256 * beNat bytes + b.toNat) / 256 = beNat bytes := by omega
    have hlow : UInt8.ofNat (256 * beNat bytes + b.toNat) = b := by
      apply UInt8.toNat_inj.mp
      rw [UInt8.toNat_ofNat']
      omega
    rw [length_append, length_singleton, beBytes, beNat_concat, hhigh, ih, hlow]

theorem beBytes_injective {w : Nat} (hv : v < 256 ^ n) (hw : w < 256 ^ n)
    (h : beBytes n v = beBytes n w) : v = w := by
  rw [← beNat_beBytes_of_lt hv, h, beNat_beBytes_of_lt hw]

/-! ## Machine words -/

/-- A 64-bit word, the highest byte first. -/
def u64Bytes (v : UInt64) : List UInt8 := beBytes 8 v.toNat

def u64Of (bytes : List UInt8) : UInt64 := UInt64.ofNat (beNat bytes)

@[simp] theorem length_u64Bytes (v : UInt64) : (u64Bytes v).length = 8 := length_beBytes _ _

@[simp] theorem u64Of_u64Bytes (v : UInt64) : u64Of (u64Bytes v) = v := by
  rw [u64Of, u64Bytes, beNat_beBytes_of_lt (by exact v.toNat_lt), UInt64.ofNat_toNat]

theorem u64Bytes_u64Of (h : bytes.length = 8) : u64Bytes (u64Of bytes) = bytes := by
  have hlt := beNat_lt bytes
  rw [h] at hlt
  have hnat : (u64Of bytes).toNat = beNat bytes := UInt64.toNat_ofNat_of_lt' hlt
  rw [u64Bytes, hnat, ← h, beBytes_beNat]

/-! ## Fields of a fixed length -/

/-- The first `n` bytes as a field of that length; past the end there are zeros. -/
def block (n : Nat) (bytes : List UInt8) : List.Vector UInt8 n :=
  ⟨bytes.take n ++ List.replicate (n - (bytes.take n).length) 0, by
    rw [List.length_append, List.length_replicate, List.length_take]
    omega⟩

theorem toList_block (h : n ≤ bytes.length) : (block n bytes).toList = bytes.take n := by
  have hlen : (bytes.take n).length = n := by rw [length_take, Nat.min_eq_left h]
  show bytes.take n ++ List.replicate (n - (bytes.take n).length) 0 = bytes.take n
  rw [hlen, Nat.sub_self, replicate_zero, append_nil]

theorem block_congr {bytes' : List UInt8} (h : bytes.take n = bytes'.take n) :
    block n bytes = block n bytes' := by
  apply Subtype.ext
  show bytes.take n ++ _ = bytes'.take n ++ _
  rw [h]

theorem block_eq {v : List.Vector UInt8 n} (h : bytes.take n = v.toList) : block n bytes = v := by
  have hlen : n ≤ bytes.length := by
    have := congrArg List.length h
    rw [length_take, List.Vector.toList_length] at this
    omega
  exact Subtype.ext ((toList_block hlen).trans h)

/-! ## Rows of records -/

/-- The first `count` records of `n` bytes each. -/
def records (n : Nat) : Nat → List UInt8 → List (List UInt8)
  | 0, _ => []
  | count + 1, bytes => bytes.take n :: records n count (bytes.drop n)

theorem records_flatMap (hlen : ∀ a, (write a).length = n) (items : List α) (rest : List UInt8) :
    records n items.length (items.flatMap write ++ rest) = items.map write := by
  induction items with
  | nil => rfl
  | cons a items ih =>
    rw [flatMap_cons, append_assoc, length_cons, records,
      take_left' (hlen a), drop_left' (hlen a), ih, map_cons]

theorem records_take (n count : Nat) (bytes : List UInt8) :
    records n count (bytes.take (count * n)) = records n count bytes := by
  induction count generalizing bytes with
  | zero => rfl
  | succ count ih =>
    have hmin : min n ((count + 1) * n) = n := by
      rw [Nat.succ_mul]
      omega
    have hrest : (count + 1) * n - n = count * n := by
      rw [Nat.succ_mul]
      omega
    rw [records, records, take_take, hmin, drop_take, hrest, ih]

theorem length_flatMap_const (hlen : ∀ a, (write a).length = n) (items : List α) :
    (items.flatMap write).length = items.length * n := by
  rw [length_flatMap, map_congr_left fun a _ => hlen a, map_const', sum_replicate,
    smul_eq_mul]

/-- A row is made of its records, when each record is something written. -/
theorem exists_of_records {α : Type*} {n : Nat} {write : α → List UInt8} {count : Nat}
    {bytes : List UInt8} (hlen : count * n ≤ bytes.length)
    (hread : ∀ record ∈ records n count bytes, record.length = n → ∃ a, write a = record) :
    ∃ items : List α, items.length = count ∧ items.flatMap write = bytes.take (count * n) := by
  induction count generalizing bytes with
  | zero => exact ⟨[], rfl, by rw [Nat.zero_mul, take_zero, flatMap_nil]⟩
  | succ count ih =>
    rw [Nat.succ_mul] at hlen
    have htake : (bytes.take n).length = n := by
      rw [length_take]
      omega
    have hdrop : count * n ≤ (bytes.drop n).length := by
      rw [length_drop]
      omega
    obtain ⟨a, ha⟩ := hread _ mem_cons_self htake
    obtain ⟨items, hitems, hrest⟩ := ih hdrop fun record hmem =>
      hread record (mem_cons_of_mem _ hmem)
    refine ⟨a :: items, by rw [length_cons, hitems], ?_⟩
    rw [flatMap_cons, ha, hrest, Nat.succ_mul, Nat.add_comm, take_add]

end Codec
