import PrivacySuite.NodeApproval.SignedBatch

/-!
# Bytewise order and the rank of an approval

Both receivers compare byte strings as unsigned bytes from the left, a proper beginning
of a string being less than the string. They keep, per transaction, the approval with
the greatest rank: issue time, then key id, then fingerprint. The rank is not the
approval: it leaves out the hash mode and the expiry time.
-/

namespace PrivacySuite.NodeApproval

open List

/-- A byte string as the numbers its bytes stand for: their lexicographic order is the
bytewise order of the strings. -/
def bytewise (bytes : List UInt8) : List Nat := bytes.map UInt8.toNat

theorem bytewise_injective : Function.Injective bytewise :=
  map_injective_iff.mpr fun _ _ h => UInt8.toNat_inj.mp h

theorem bytewise_toList_injective : Function.Injective fun h : Hash => bytewise h.toList :=
  fun _ _ h => List.Vector.toList_injective (bytewise_injective h)

/-- Hashes are ordered bytewise. -/
instance : LinearOrder Hash :=
  LinearOrder.lift' (fun h : Hash => bytewise h.toList) bytewise_toList_injective

theorem hash_le_iff {h h' : Hash} : h ≤ h' ↔ bytewise h.toList ≤ bytewise h'.toList := Iff.rfl

/-! ## The least and the greatest hash -/

/-- `B256::repeat_byte`. -/
def repeatByte (b : UInt8) : Hash := List.Vector.replicate 32 b

theorem replicate_zero_le (xs : List Nat) : List.replicate xs.length 0 ≤ xs := by
  induction xs with
  | nil => exact le_refl _
  | cons x xs ih =>
    rw [length_cons, replicate_succ]
    cases x with
    | zero => exact cons_le_cons 0 ih
    | succ x => exact le_of_lt (List.Lex.rel (Nat.succ_pos x))

theorem le_replicate_of_le {bound : Nat} {xs : List Nat} (h : ∀ x ∈ xs, x ≤ bound) :
    xs ≤ List.replicate xs.length bound := by
  induction xs with
  | nil => exact le_refl _
  | cons x xs ih =>
    rw [length_cons, replicate_succ]
    have hrest := ih fun y hy => h y (mem_cons_of_mem x hy)
    rcases Nat.lt_or_eq_of_le (h x mem_cons_self) with hlt | rfl
    · exact le_of_lt (List.Lex.rel hlt)
    · exact cons_le_cons x hrest

theorem bytewise_repeatByte (b : UInt8) :
    bytewise (repeatByte b).toList = List.replicate 32 b.toNat := by
  show (List.replicate 32 b).map UInt8.toNat = _
  rw [map_replicate]

theorem length_bytewise_hash (h : Hash) : (bytewise h.toList).length = 32 := by
  rw [bytewise, length_map, List.Vector.toList_length]

theorem repeatByte_zero_le (h : Hash) : repeatByte 0 ≤ h := by
  have hle := replicate_zero_le (bytewise h.toList)
  rw [length_bytewise_hash] at hle
  rw [hash_le_iff, bytewise_repeatByte]
  exact hle

theorem le_repeatByte_max (h : Hash) : h ≤ repeatByte 0xff := by
  have hbytes : ∀ x ∈ bytewise h.toList, x ≤ 255 := by
    intro x hx
    obtain ⟨b, -, rfl⟩ := mem_map.mp hx
    have := b.toNat_lt
    omega
  have hle := le_replicate_of_le hbytes
  rw [length_bytewise_hash] at hle
  rw [hash_le_iff, bytewise_repeatByte]
  exact hle

/-! ## Ranks -/

/-- Issue time, key id and fingerprint, compared in this order. -/
abbrev Rank := Nat ×ₗ List Nat ×ₗ List Nat

def rankOf (issuedAt : UInt64) (keyId : List UInt8) (fingerprint : Hash) : Rank :=
  toLex (issuedAt.toNat, toLex (bytewise keyId, bytewise fingerprint.toList))

theorem rankOf_inj {issuedAt issuedAt' : UInt64} {keyId keyId' : List UInt8}
    {fingerprint fingerprint' : Hash} :
    rankOf issuedAt keyId fingerprint = rankOf issuedAt' keyId' fingerprint' ↔
      issuedAt = issuedAt' ∧ keyId = keyId' ∧ fingerprint = fingerprint' := by
  constructor
  · intro h
    obtain ⟨hissued, hrest⟩ := Prod.mk.inj (toLex.injective h)
    obtain ⟨hkey, hfingerprint⟩ := Prod.mk.inj (toLex.injective hrest)
    exact ⟨UInt64.toNat_inj.mp hissued, bytewise_injective hkey,
      bytewise_toList_injective hfingerprint⟩
  · rintro ⟨rfl, rfl, rfl⟩
    rfl

end PrivacySuite.NodeApproval
