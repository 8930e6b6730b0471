import PrivacySuite.Codec.Bytes
import PrivacySuite.Go.Hex

/-!
# Hexadecimal numbers

The number that hexadecimal digits spell, the digits of a number at a fixed width,
and how the two go together with big-endian bytes: the encoding of the bytes of a
number is the digits of the number.
-/

namespace Go

open Codec List

def hexNat (digits : List Char) : Option Nat :=
  digits.foldlM (fun n c => (hexDigit c).map (16 * n + ·)) 0

/-- The low `m` hexadecimal digits of a number. -/
def hexDigits : Nat → Nat → List Char
  | 0, _ => []
  | m + 1, n => hexDigits m (n / 16) ++ [hexChar (n % 16)]

theorem hexDigits_zero (m : Nat) : hexDigits m 0 = List.replicate m '0' := by
  induction m with
  | zero => rfl
  | succ m ih => rw [hexDigits, ih, replicate_succ']; rfl

variable {digits : List Char} {c : Char} {n : Nat}

theorem hexNat_concat (h : hexNat (digits ++ [c]) = some n) :
    ∃ high low, hexNat digits = some high ∧ hexDigit c = some low ∧ n = 16 * high + low := by
  rw [hexNat, foldlM_append, Option.bind_eq_bind, Option.bind_eq_some_iff] at h
  obtain ⟨high, hhigh, hlow⟩ := h
  rw [foldlM_cons, Option.bind_eq_bind, Option.bind_eq_some_iff] at hlow
  obtain ⟨n', hn', hlast⟩ := hlow
  obtain rfl := Option.some.inj hlast
  obtain ⟨low, hdigit, rfl⟩ := Option.map_eq_some_iff.mp hn'
  exact ⟨high, low, hhigh, hdigit, rfl⟩

/-- Digits with zeros in front are the digits of the number they spell, in lower
case. -/
theorem hexDigits_of_hexNat (h : hexNat digits = some n) (k : Nat) :
    hexDigits (k + digits.length) n = List.replicate k '0' ++ digits.map toLowerRune := by
  induction digits using List.reverseRecOn generalizing n with
  | nil =>
    obtain rfl := Option.some.inj h
    rw [length_nil, Nat.add_zero, hexDigits_zero, map_nil, append_nil]
  | append_singleton digits c ih =>
    obtain ⟨high, low, hhigh, hlow, rfl⟩ := hexNat_concat h
    obtain ⟨hlt, hlower⟩ := hexDigit_some hlow
    have hdiv : (16 * high + low) / 16 = high := by omega
    have hmod : (16 * high + low) % 16 = low := by omega
    rw [length_append, length_singleton, ← Nat.add_assoc, hexDigits, hdiv, hmod,
      ih hhigh, map_append, map_singleton, hlower, append_assoc]

theorem hexPair_ofNat (n : Nat) :
    hexPair (UInt8.ofNat n) = [hexChar (n / 16 % 16), hexChar (n % 16)] := by
  have hnat : (UInt8.ofNat n).toNat = n % 256 := UInt8.toNat_ofNat'
  rw [hexPair, hnat, show n % 256 / 16 = n / 16 % 16 by omega,
    show n % 256 % 16 = n % 16 by omega]

theorem flatMap_hexPair_beBytes (n v : Nat) :
    (beBytes n v).flatMap hexPair = hexDigits (2 * n) v := by
  induction n generalizing v with
  | zero => rfl
  | succ n ih =>
    have hdiv : v / 16 / 16 = v / 256 := Nat.div_div_eq_div_mul v 16 16
    rw [beBytes, flatMap_append, ih, flatMap_singleton, hexPair_ofNat,
      show 2 * (n + 1) = 2 * n + 1 + 1 by omega, hexDigits, hexDigits, hdiv, append_assoc]
    rfl

theorem hexNat_all (h : hexNat digits = some n) : ∀ c ∈ digits, (hexDigit c).isSome = true := by
  induction digits using List.reverseRecOn generalizing n with
  | nil => intro c hc; cases hc
  | append_singleton digits d ih =>
    obtain ⟨high, low, hhigh, hlow, -⟩ := hexNat_concat h
    intro c hc
    rcases mem_append.mp hc with hc | hc
    · exact ih hhigh c hc
    · rw [mem_singleton.mp hc, hlow]
      rfl

theorem hexNat_of_all (h : ∀ c ∈ digits, (hexDigit c).isSome = true) :
    ∃ n, hexNat digits = some n := by
  induction digits using List.reverseRecOn with
  | nil => exact ⟨0, rfl⟩
  | append_singleton digits d ih =>
    obtain ⟨high, hhigh⟩ := ih fun c hc => h c (mem_append_left _ hc)
    obtain ⟨low, hlow⟩ := Option.isSome_iff_exists.mp (h d (by simp))
    rw [hexNat] at hhigh
    refine ⟨16 * high + low, ?_⟩
    rw [hexNat, foldlM_append, hhigh]
    simp [hlow]

theorem runeLen_of_hexDigit (h : (hexDigit c).isSome = true) : runeLen c = 1 := by
  have hlt : c.toNat < 0x80 := by
    unfold hexDigit at h
    simp only at h
    split_ifs at h <;> first | omega | cases h
  rw [runeLen, if_pos hlt]

theorem byteLen_of_digits {s : String} (h : ∀ c ∈ s.toList, (hexDigit c).isSome = true) :
    byteLen s = s.toList.length := by
  have hones : s.toList.map runeLen = List.replicate s.toList.length 1 := by
    rw [eq_replicate_iff, length_map]
    refine ⟨rfl, fun n hn => ?_⟩
    obtain ⟨c, hc, rfl⟩ := mem_map.mp hn
    exact runeLen_of_hexDigit (h c hc)
  rw [byteLen, hones, sum_replicate, smul_eq_mul, Nat.mul_one]

theorem encodeHex_beBytes (n v : Nat) :
    encodeHex (beBytes n v) = String.ofList (hexDigits (2 * n) v) := by
  rw [← flatMap_hexPair_beBytes]
  rfl

end Go
