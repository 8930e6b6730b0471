import PrivacySuite.NodeApproval.CallRow

/-!
# The calls fingerprint of the Besu plugin

`CallsFingerprint.of`, up to the hash. The plugin does not see a tree: the tracer gives
it one record for each frame, in the order the frames were entered, each with the
number of its parent and with its storage account resolved.

A Java `int` is an `Int`; `u32` writes its two's complement.
-/

namespace PrivacySuite.Besu

open Codec Data NodeApproval Phase List

/-- `CallRecord`, without the two fields only the strict fingerprint reads. -/
structure CallRecord where
  parent : Int
  kind : Int
  fromAddr : Address
  toAddr : Address
  storage : Address
  codeHash : Hash
  value : BitVec 256
  failed : Bool
  input : List UInt8

def rootParent : Int := -1

/-- `CallRecord.typeName`. -/
def typeName (kind : Int) : String :=
  if kind = 1 then "CALL"
  else if kind = 2 then "STATICCALL"
  else if kind = 3 then "DELEGATECALL"
  else if kind = 4 then "CALLCODE"
  else if kind = 5 then "CREATE"
  else if kind = 6 then "CREATE2"
  else if kind = 7 then "SELFDESTRUCT"
  else "UNKNOWN"

def callsDomain : List UInt8 := ascii "OPS_CALLS_V3\x00"

def maxCalls : Nat := 128

def maxBytes : Nat := 1 <<< 20

def fixedRecordBytes : Nat := 4 + 1 + 20 * 3 + 32 + 32 + 1 + 4

def u32 (v : Int) : List UInt8 := beBytes 4 (v % 2 ^ 32).toNat

def addRecord (buf : List UInt8) (r : CallRecord) : Except String (List UInt8) := do
  onlyIf (r.kind < 1 ∨ r.kind > 4)
    (.error ("lifecycle/unknown operation under call-only approval: " ++ typeName r.kind))
  onlyIf (buf.length + fixedRecordBytes + r.input.length > maxBytes)
    (.error "call fingerprint exceeds 1 MiB")
  return buf ++ u32 (if r.parent = rootParent then 0xffffffff else r.parent) ++
    [UInt8.ofNat r.kind.toNat] ++ r.fromAddr.toList ++ r.toAddr.toList ++ r.storage.toList ++
    r.codeHash.toList ++ beBytes 32 r.value.toNat ++ [if r.failed then 1 else 0] ++
    u32 r.input.length ++ r.input

def callBytes (records : List CallRecord) : Except String (List UInt8) := do
  onlyIf (records.isEmpty = true) (.error "no executed frames")
  onlyIf (records.length > maxCalls) (.error "more than 128 calls")
  records.foldlM addRecord (callsDomain ++ u32 records.length)

/-! ## Rows -/

def CallRecord.row (r : CallRecord) : CallRow where
  kind := UInt8.ofNat r.kind.toNat
  sender := r.fromAddr
  target := r.toAddr
  storage := r.storage
  code := r.codeHash
  value := beBytes 32 r.value.toNat
  failed := r.failed
  input := r.input

/-- The number a parent is written as. -/
def CallRecord.parentNumber (r : CallRecord) : Nat :=
  ((if r.parent = rootParent then 0xffffffff else r.parent) % 2 ^ 32).toNat

theorem CallRecord.whole_row (r : CallRecord) : r.row.Whole := length_beBytes _ _

theorem u32_natCast {n : Nat} (h : n < 2 ^ 32) : u32 n = beBytes 4 n := by
  have hmod : ((n : Int) % 2 ^ 32).toNat = n := by omega
  rw [u32, hmod]

theorem addRecord_eq_ok {buf buf' : List UInt8} {r : CallRecord} :
    addRecord buf r = .ok buf' ↔ (1 ≤ r.kind ∧ r.kind ≤ 4) ∧
      buf.length + 134 + r.row.input.length ≤ 2 ^ 20 ∧
        buf' = buf ++ r.row.bytes r.parentNumber := by
  unfold addRecord
  simp only [↓onlyIf_error_bind_eq_ok, Phase.pure_eq_ok, Nat.not_lt, not_or, Int.not_lt]
  have hlimit : maxBytes = 2 ^ 20 := by decide
  have hfixed : fixedRecordBytes = 134 := by decide
  rw [hlimit, hfixed]
  refine and_congr_right fun _ => and_congr_right fun hfits => ?_
  have hlen : r.input.length < 2 ^ 32 := by omega
  rw [u32_natCast hlen, eq_comm]
  simp only [CallRow.bytes, CallRow.tail, CallRecord.row, CallRecord.parentNumber, failedByte, u32,
    append_assoc, cons_append, nil_append]
  exact Iff.rfl

theorem foldlM_addRecord_eq_ok {records : List CallRecord} {buf buf' : List UInt8}
    (hbuf : buf.length ≤ 2 ^ 20) :
    records.foldlM addRecord buf = .ok buf' ↔ (∀ r ∈ records, 1 ≤ r.kind ∧ r.kind ≤ 4) ∧
      buf.length + rowsSize (records.map CallRecord.row) ≤ 2 ^ 20 ∧
        buf' = buf ++ records.flatMap fun r => r.row.bytes r.parentNumber := by
  induction records generalizing buf with
  | nil =>
    rw [foldlM_nil, Phase.pure_eq_ok, flatMap_nil, append_nil, eq_comm]
    constructor
    · intro h
      exact ⟨fun r hr => absurd hr not_mem_nil, hbuf, h⟩
    · rintro ⟨-, -, h⟩
      exact h
  | cons r records ih =>
    have hlen := r.row.length_bytes r.whole_row r.parentNumber
    have hsize : rowsSize ((r :: records).map CallRecord.row) =
        134 + r.row.input.length + rowsSize (records.map CallRecord.row) := rfl
    rw [foldlM_cons, Phase.bind_eq_ok, flatMap_cons, forall_mem_cons, hsize]
    simp only [addRecord_eq_ok]
    constructor
    · rintro ⟨buf₁, ⟨hkind, hfits, rfl⟩, hrest⟩
      rw [ih (by rw [length_append, hlen]; omega), length_append, hlen] at hrest
      obtain ⟨hkinds, hsum, rfl⟩ := hrest
      exact ⟨⟨hkind, hkinds⟩, by omega, append_assoc _ _ _⟩
    · rintro ⟨⟨hkind, hkinds⟩, hsum, rfl⟩
      refine ⟨_, ⟨hkind, by omega, rfl⟩, ?_⟩
      rw [ih (by rw [length_append, hlen]; omega), length_append, hlen]
      exact ⟨hkinds, by omega, (append_assoc _ _ _).symm⟩

/-- The plugin hashes the records as they stand, if there are at most 128, of the four
kinds, and they fit. -/
theorem callBytes_eq_ok {records : List CallRecord} {bytes : List UInt8} :
    callBytes records = .ok bytes ↔ records ≠ [] ∧ records.length ≤ 128 ∧
      (∀ r ∈ records, 1 ≤ r.kind ∧ r.kind ≤ 4) ∧
      17 + rowsSize (records.map CallRecord.row) ≤ 2 ^ 20 ∧
        bytes = callHeader records.length ++
          records.flatMap fun r => r.row.bytes r.parentNumber := by
  unfold callBytes
  rw [onlyIf_error_bind_eq_ok, onlyIf_error_bind_eq_ok, List.isEmpty_iff, Nat.not_lt]
  refine and_congr_right fun _ => ?_
  show records.length ≤ 128 ∧ _ ↔ _
  refine and_congr_right fun hlen => ?_
  have hheader : callsDomain ++ u32 records.length = callHeader records.length := by
    rw [u32_natCast (by omega)]
    rfl
  rw [hheader, foldlM_addRecord_eq_ok (by rw [length_callHeader]; decide), length_callHeader]

end PrivacySuite.Besu
