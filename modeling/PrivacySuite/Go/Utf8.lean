import Mathlib

/-!
# Strings as bytes

A Go string is a string of bytes, and `range` reads runes off it: the character
whose encoding comes next or, where no encoding does, U+FFFD for a single byte.
-/

namespace Go

open List

/-- The character a string of bytes starts with the encoding of. -/
def leadingRune (bytes : List UInt8) : Option Char := bytes.toByteArray.utf8DecodeChar? 0

/-- `for _, r := range s`, with `skip` bytes of the last rune still to pass. -/
def runesFrom : Nat → List UInt8 → List Char
  | _, [] => []
  | skip + 1, _ :: rest => runesFrom skip rest
  | 0, b :: rest =>
      match leadingRune (b :: rest) with
      | some c => c :: runesFrom (c.utf8Size - 1) rest
      | none => '�' :: runesFrom 0 rest

def runes (bytes : List UInt8) : List Char := runesFrom 0 bytes

theorem leadingRune_encode (c : Char) (rest : List UInt8) :
    leadingRune (String.utf8EncodeChar c ++ rest) = some c := by
  rw [leadingRune, toByteArray_append]
  exact ByteArray.utf8DecodeChar?_utf8EncodeChar_append

theorem exists_of_leadingRune {bytes : List UInt8} {c : Char} (h : leadingRune bytes = some c) :
    ∃ rest, bytes = String.utf8EncodeChar c ++ rest := by
  obtain ⟨tail, htail⟩ := ByteArray.exists_of_utf8DecodeChar?_eq_some h
  refine ⟨tail.data.toList, ?_⟩
  have hdata := congrArg (fun array : ByteArray => array.data.toList) htail
  simpa using hdata

theorem encode_ascii {c : Char} (h : c.toNat < 0x80) :
    String.utf8EncodeChar c = [UInt8.ofNat c.toNat] := by
  have hle : c.val.toNat ≤ 127 := Nat.le_of_lt_succ h
  simp only [String.utf8EncodeChar, hle, if_true]
  rfl

theorem toNat_ofNat_byte (b : UInt8) : (Char.ofNat b.toNat).toNat = b.toNat := by
  have hb := b.toNat_lt
  have hvalid : b.toNat.isValidChar := .inl (by omega)
  rw [Char.ofNat, dif_pos hvalid]
  rfl

theorem leadingRune_ascii {b : UInt8} (h : b.toNat < 0x80) (rest : List UInt8) :
    leadingRune (b :: rest) = some (Char.ofNat b.toNat) := by
  have hchar : (Char.ofNat b.toNat).toNat < 0x80 := by rwa [toNat_ofNat_byte]
  have hencode := encode_ascii hchar
  rw [toNat_ofNat_byte, UInt8.ofNat_toNat] at hencode
  have happend := leadingRune_encode (Char.ofNat b.toNat) rest
  rwa [hencode] at happend

theorem utf8Size_ascii {c : Char} (h : c.toNat < 0x80) : c.utf8Size = 1 := by
  rw [← String.length_utf8EncodeChar, encode_ascii h, length_singleton]

/-- A test that only ASCII characters pass may be made on the bytes. -/
theorem all_runes {p : Char → Bool} (hp : ∀ c, p c = true → c.toNat < 0x80)
    (bytes : List UInt8) : (runes bytes).all p = bytes.all fun b => p (Char.ofNat b.toNat) := by
  have hfalse : ∀ c : Char, 0x80 ≤ c.toNat → p c = false := by
    intro c hc
    cases hpc : p c with
    | false => rfl
    | true => exact absurd (hp c hpc) (Nat.not_lt.mpr hc)
  unfold runes
  induction bytes with
  | nil => rfl
  | cons b rest ih =>
    by_cases hb : b.toNat < 0x80
    · have hsize : (Char.ofNat b.toNat).utf8Size = 1 :=
        utf8Size_ascii (by rwa [toNat_ofNat_byte])
      rw [runesFrom, leadingRune_ascii hb]
      simp only [hsize, all_cons, ih]
    · have hbyte : p (Char.ofNat b.toNat) = false := by
        apply hfalse
        rw [toNat_ofNat_byte]
        omega
      rw [all_cons, hbyte, Bool.false_and, runesFrom]
      cases hlead : leadingRune (b :: rest) with
      | none => simp only [all_cons, hfalse '�' (by decide), Bool.false_and]
      | some c =>
        obtain ⟨tail, htail⟩ := exists_of_leadingRune hlead
        have hc : 0x80 ≤ c.toNat := by
          by_contra hlt
          rw [encode_ascii (by omega), cons_append, nil_append] at htail
          have hhead : b = UInt8.ofNat c.toNat := (List.cons.inj htail).1
          rw [hhead, UInt8.toNat_ofNat'] at hb
          omega
        simp only [all_cons, hfalse c hc, Bool.false_and]

end Go
