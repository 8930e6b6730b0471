import PrivacySuite.Codec.Bytes
import PrivacySuite.Go.Hex

/-!
# Hexadecimal text of the client library

`hexutil.Decode`, which wants the prefix and refuses anything that is not whole
bytes, and `common.FromHex` with `common.HexToAddress`, which take what they can get.
-/

namespace Go

open Codec

/-! ## Strict decoding -/

def hexutilDigits (digits : List Char) : Except String (List UInt8) :=
  match decodeHexChars digits with
  | some bytes => .ok bytes
  | none =>
      if digits.all (fun c => (hexDigit c).isSome) then .error "hex string of odd length"
      else .error "invalid hex string"

/-- `hexutil.Decode`: the prefix is required. -/
def hexutilDecode (raw : String) : Except String (List UInt8) :=
  match raw.toList with
  | [] => .error "empty hex string"
  | '0' :: 'x' :: digits => hexutilDigits digits
  | '0' :: 'X' :: digits => hexutilDigits digits
  | _ => .error "hex string without 0x prefix"

theorem hexutilDigits_eq_ok {digits : List Char} {bytes : List UInt8} :
    hexutilDigits digits = .ok bytes ↔ decodeHexChars digits = some bytes := by
  unfold hexutilDigits
  split
  · rename_i decoded hdecoded
    rw [hdecoded, Except.ok.injEq, Option.some.injEq]
  · rename_i hnone
    rw [hnone]
    split <;> constructor <;> intro h <;> cases h

theorem toList_of_hexutilDecode {raw : String} {bytes : List UInt8}
    (h : hexutilDecode raw = .ok bytes) :
    ∃ digits, (raw.toList = '0' :: 'x' :: digits ∨ raw.toList = '0' :: 'X' :: digits) ∧
      decodeHexChars digits = some bytes := by
  unfold hexutilDecode at h
  split at h
  · cases h
  · exact ⟨_, .inl ‹_›, hexutilDigits_eq_ok.mp h⟩
  · exact ⟨_, .inr ‹_›, hexutilDigits_eq_ok.mp h⟩
  · cases h

theorem hexutilDecode_of_spelled {text : String} {bytes : List UInt8}
    (h : spelled text = some bytes) : hexutilDecode text = .ok bytes := by
  obtain ⟨hzero, hdecode⟩ := spelled_some h
  obtain ⟨digits, hlist, htrim⟩ := toList_of_hasPrefix hzero
  rw [htrim, decodeHex, String.toList_ofList] at hdecode
  unfold hexutilDecode
  rw [hlist]
  exact hexutilDigits_eq_ok.mpr hdecode

/-! ## Lenient decoding -/

/-- The bytes in front of the first character that is no digit. -/
def hex2Bytes : List Char → List UInt8
  | hi :: lo :: rest =>
      match hexDigit hi, hexDigit lo with
      | some h, some l => UInt8.ofNat (16 * h + l) :: hex2Bytes rest
      | _, _ => []
  | _ => []

def hexBody (s : String) : List Char :=
  match s.toList with
  | '0' :: 'x' :: digits => digits
  | '0' :: 'X' :: digits => digits
  | digits => digits

/-- `common.FromHex`. -/
def fromHex (s : String) : List UInt8 :=
  if byteLen (String.ofList (hexBody s)) % 2 = 1 then hex2Bytes ('0' :: hexBody s)
  else hex2Bytes (hexBody s)

/-- The last twenty bytes, with zeros in front of fewer. -/
def hexToAddress (s : String) : List.Vector UInt8 20 :=
  block 20 (List.replicate (20 - (fromHex s).length) 0 ++
    (fromHex s).drop ((fromHex s).length - 20))

theorem hex2Bytes_hexPair (bytes : List UInt8) : hex2Bytes (bytes.flatMap hexPair) = bytes := by
  induction bytes with
  | nil => rfl
  | cons b rest ih =>
    have hbyte : UInt8.ofNat (16 * (b.toNat / 16) + b.toNat % 16) = b := by
      rw [Nat.div_add_mod, UInt8.ofNat_toNat]
    simp only [List.flatMap_cons, hexPair, List.cons_append, List.nil_append, hex2Bytes,
      hexDigit_hexChar (high_lt b), hexDigit_hexChar (low_lt b), ih, hbyte]

theorem hexBody_append (digits : List Char) :
    hexBody ("0x" ++ String.ofList digits) = digits := by
  have hlist : ("0x" ++ String.ofList digits).toList = '0' :: 'x' :: digits := by
    rw [String.toList_append, String.toList_ofList, String.toList_ofList]
    rfl
  unfold hexBody
  rw [hlist]
  rfl

theorem fromHex_encodeHex (bytes : List UInt8) : fromHex ("0x" ++ encodeHex bytes) = bytes := by
  have hbody : hexBody ("0x" ++ encodeHex bytes) = bytes.flatMap hexPair := hexBody_append _
  have heven : byteLen (String.ofList (bytes.flatMap hexPair)) % 2 = 0 := by
    rw [byteLen, String.toList_ofList, sum_runeLen_flatMap_hexPair]
    omega
  rw [fromHex, hbody, heven, if_neg (by decide), hex2Bytes_hexPair]

theorem hexToAddress_encodeHex (a : List.Vector UInt8 20) :
    hexToAddress ("0x" ++ encodeHex a.toList) = a := by
  apply block_eq
  rw [fromHex_encodeHex, a.toList_length, Nat.sub_self, List.replicate_zero, List.nil_append,
    List.drop_zero, List.take_of_length_le a.toList_length.le]

end Go
