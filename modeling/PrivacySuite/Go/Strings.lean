import Mathlib

/-!
# Go strings

The part of the Go `strings` and `unicode` packages that request handling code
leans on, over Lean `String`s (sequences of Unicode scalar values, which is what
a decoded JSON string is).

Case mapping is the full simple mapping of the Unicode tables the Go
distribution ships: `caseRanges` lists every rune whose lower-case form differs
from it, `foldExceptions` the runes whose fold orbit is not decided by the
lower-case form alone. Two facts are used throughout the development: mapping to
lower case twice is mapping once (`toLower_toLower`), and the usual
`ToLower(TrimSpace(s))` normalisation is stable (`trimLower_trimLower`).
-/

namespace Go

open List

/-! ## White space -/

/-- The code points of `unicode.White_Space`. -/
def whiteSpace : List Nat :=
  [0x9, 0xA, 0xB, 0xC, 0xD, 0x20, 0x85, 0xA0, 0x1680, 0x2000, 0x2001, 0x2002, 0x2003, 0x2004,
   0x2005, 0x2006, 0x2007, 0x2008, 0x2009, 0x200A, 0x2028, 0x2029, 0x202F, 0x205F, 0x3000]

def isSpace (c : Char) : Bool := whiteSpace.contains c.toNat

def trimSpace (s : String) : String :=
  String.ofList ((s.toList.dropWhile isSpace).rdropWhile isSpace)

/-! ## Lower case -/

/-- A run of upper-case code points `lo, lo + stride, …, hi` whose lower-case
forms are `target, target + stride, …` in the same order. -/
structure CaseRange where
  lo : Nat
  hi : Nat
  stride : Nat
  target : Nat

namespace CaseRange

def covers (r : CaseRange) (n : Nat) : Bool :=
  r.lo.ble n && n.ble r.hi && ((n - r.lo) % r.stride).beq 0

def image (r : CaseRange) (n : Nat) : Nat := r.target + (n - r.lo)

end CaseRange

/-- Every code point with a lower-case form of its own. -/
def caseRanges : List CaseRange :=
  [⟨0x41, 0x5A, 1, 0x61⟩, ⟨0xC0, 0xD6, 1, 0xE0⟩, ⟨0xD8, 0xDE, 1, 0xF8⟩, ⟨0x100, 0x12E, 2, 0x101⟩,
   ⟨0x130, 0x130, 2, 0x69⟩, ⟨0x132, 0x136, 2, 0x133⟩, ⟨0x139, 0x147, 2, 0x13A⟩,
   ⟨0x14A, 0x176, 2, 0x14B⟩, ⟨0x178, 0x178, 2, 0xFF⟩, ⟨0x179, 0x17D, 2, 0x17A⟩,
   ⟨0x181, 0x181, 2, 0x253⟩, ⟨0x182, 0x184, 2, 0x183⟩, ⟨0x186, 0x186, 2, 0x254⟩,
   ⟨0x187, 0x187, 2, 0x188⟩, ⟨0x189, 0x18A, 1, 0x256⟩, ⟨0x18B, 0x18B, 2, 0x18C⟩,
   ⟨0x18E, 0x18E, 2, 0x1DD⟩, ⟨0x18F, 0x18F, 2, 0x259⟩, ⟨0x190, 0x190, 2, 0x25B⟩,
   ⟨0x191, 0x191, 2, 0x192⟩, ⟨0x193, 0x193, 2, 0x260⟩, ⟨0x194, 0x194, 2, 0x263⟩,
   ⟨0x196, 0x196, 2, 0x269⟩, ⟨0x197, 0x197, 2, 0x268⟩, ⟨0x198, 0x198, 2, 0x199⟩,
   ⟨0x19C, 0x19C, 2, 0x26F⟩, ⟨0x19D, 0x19D, 2, 0x272⟩, ⟨0x19F, 0x19F, 2, 0x275⟩,
   ⟨0x1A0, 0x1A4, 2, 0x1A1⟩, ⟨0x1A6, 0x1A6, 2, 0x280⟩, ⟨0x1A7, 0x1A7, 2, 0x1A8⟩,
   ⟨0x1A9, 0x1A9, 2, 0x283⟩, ⟨0x1AC, 0x1AC, 2, 0x1AD⟩, ⟨0x1AE, 0x1AE, 2, 0x288⟩,
   ⟨0x1AF, 0x1AF, 2, 0x1B0⟩, ⟨0x1B1, 0x1B2, 1, 0x28A⟩, ⟨0x1B3, 0x1B5, 2, 0x1B4⟩,
   ⟨0x1B7, 0x1B7, 2, 0x292⟩, ⟨0x1B8, 0x1B8, 2, 0x1B9⟩, ⟨0x1BC, 0x1BC, 2, 0x1BD⟩,
   ⟨0x1C4, 0x1C4, 2, 0x1C6⟩, ⟨0x1C5, 0x1C5, 2, 0x1C6⟩, ⟨0x1C7, 0x1C7, 2, 0x1C9⟩,
   ⟨0x1C8, 0x1C8, 2, 0x1C9⟩, ⟨0x1CA, 0x1CA, 2, 0x1CC⟩, ⟨0x1CB, 0x1DB, 2, 0x1CC⟩,
   ⟨0x1DE, 0x1EE, 2, 0x1DF⟩, ⟨0x1F1, 0x1F1, 2, 0x1F3⟩, ⟨0x1F2, 0x1F4, 2, 0x1F3⟩,
   ⟨0x1F6, 0x1F6, 2, 0x195⟩, ⟨0x1F7, 0x1F7, 2, 0x1BF⟩, ⟨0x1F8, 0x21E, 2, 0x1F9⟩,
   ⟨0x220, 0x220, 2, 0x19E⟩, ⟨0x222, 0x232, 2, 0x223⟩, ⟨0x23A, 0x23A, 2, 0x2C65⟩,
   ⟨0x23B, 0x23B, 2, 0x23C⟩, ⟨0x23D, 0x23D, 2, 0x19A⟩, ⟨0x23E, 0x23E, 2, 0x2C66⟩,
   ⟨0x241, 0x241, 2, 0x242⟩, ⟨0x243, 0x243, 2, 0x180⟩, ⟨0x244, 0x244, 2, 0x289⟩,
   ⟨0x245, 0x245, 2, 0x28C⟩, ⟨0x246, 0x24E, 2, 0x247⟩, ⟨0x370, 0x372, 2, 0x371⟩,
   ⟨0x376, 0x376, 2, 0x377⟩, ⟨0x37F, 0x37F, 2, 0x3F3⟩, ⟨0x386, 0x386, 2, 0x3AC⟩,
   ⟨0x388, 0x38A, 1, 0x3AD⟩, ⟨0x38C, 0x38C, 2, 0x3CC⟩, ⟨0x38E, 0x38F, 1, 0x3CD⟩,
   ⟨0x391, 0x3A1, 1, 0x3B1⟩, ⟨0x3A3, 0x3AB, 1, 0x3C3⟩, ⟨0x3CF, 0x3CF, 2, 0x3D7⟩,
   ⟨0x3D8, 0x3EE, 2, 0x3D9⟩, ⟨0x3F4, 0x3F4, 2, 0x3B8⟩, ⟨0x3F7, 0x3F7, 2, 0x3F8⟩,
   ⟨0x3F9, 0x3F9, 2, 0x3F2⟩, ⟨0x3FA, 0x3FA, 2, 0x3FB⟩, ⟨0x3FD, 0x3FF, 1, 0x37B⟩,
   ⟨0x400, 0x40F, 1, 0x450⟩, ⟨0x410, 0x42F, 1, 0x430⟩, ⟨0x460, 0x480, 2, 0x461⟩,
   ⟨0x48A, 0x4BE, 2, 0x48B⟩, ⟨0x4C0, 0x4C0, 2, 0x4CF⟩, ⟨0x4C1, 0x4CD, 2, 0x4C2⟩,
   ⟨0x4D0, 0x52E, 2, 0x4D1⟩, ⟨0x531, 0x556, 1, 0x561⟩, ⟨0x10A0, 0x10C5, 1, 0x2D00⟩,
   ⟨0x10C7, 0x10C7, 2, 0x2D27⟩, ⟨0x10CD, 0x10CD, 2, 0x2D2D⟩, ⟨0x13A0, 0x13EF, 1, 0xAB70⟩,
   ⟨0x13F0, 0x13F5, 1, 0x13F8⟩, ⟨0x1C90, 0x1CBA, 1, 0x10D0⟩, ⟨0x1CBD, 0x1CBF, 1, 0x10FD⟩,
   ⟨0x1E00, 0x1E94, 2, 0x1E01⟩, ⟨0x1E9E, 0x1E9E, 2, 0xDF⟩, ⟨0x1EA0, 0x1EFE, 2, 0x1EA1⟩,
   ⟨0x1F08, 0x1F0F, 1, 0x1F00⟩, ⟨0x1F18, 0x1F1D, 1, 0x1F10⟩, ⟨0x1F28, 0x1F2F, 1, 0x1F20⟩,
   ⟨0x1F38, 0x1F3F, 1, 0x1F30⟩, ⟨0x1F48, 0x1F4D, 1, 0x1F40⟩, ⟨0x1F59, 0x1F5F, 2, 0x1F51⟩,
   ⟨0x1F68, 0x1F6F, 1, 0x1F60⟩, ⟨0x1F88, 0x1F8F, 1, 0x1F80⟩, ⟨0x1F98, 0x1F9F, 1, 0x1F90⟩,
   ⟨0x1FA8, 0x1FAF, 1, 0x1FA0⟩, ⟨0x1FB8, 0x1FB9, 1, 0x1FB0⟩, ⟨0x1FBA, 0x1FBB, 1, 0x1F70⟩,
   ⟨0x1FBC, 0x1FBC, 2, 0x1FB3⟩, ⟨0x1FC8, 0x1FCB, 1, 0x1F72⟩, ⟨0x1FCC, 0x1FCC, 2, 0x1FC3⟩,
   ⟨0x1FD8, 0x1FD9, 1, 0x1FD0⟩, ⟨0x1FDA, 0x1FDB, 1, 0x1F76⟩, ⟨0x1FE8, 0x1FE9, 1, 0x1FE0⟩,
   ⟨0x1FEA, 0x1FEB, 1, 0x1F7A⟩, ⟨0x1FEC, 0x1FEC, 2, 0x1FE5⟩, ⟨0x1FF8, 0x1FF9, 1, 0x1F78⟩,
   ⟨0x1FFA, 0x1FFB, 1, 0x1F7C⟩, ⟨0x1FFC, 0x1FFC, 2, 0x1FF3⟩, ⟨0x2126, 0x2126, 2, 0x3C9⟩,
   ⟨0x212A, 0x212A, 2, 0x6B⟩, ⟨0x212B, 0x212B, 2, 0xE5⟩, ⟨0x2132, 0x2132, 2, 0x214E⟩,
   ⟨0x2160, 0x216F, 1, 0x2170⟩, ⟨0x2183, 0x2183, 2, 0x2184⟩, ⟨0x24B6, 0x24CF, 1, 0x24D0⟩,
   ⟨0x2C00, 0x2C2F, 1, 0x2C30⟩, ⟨0x2C60, 0x2C60, 2, 0x2C61⟩, ⟨0x2C62, 0x2C62, 2, 0x26B⟩,
   ⟨0x2C63, 0x2C63, 2, 0x1D7D⟩, ⟨0x2C64, 0x2C64, 2, 0x27D⟩, ⟨0x2C67, 0x2C6B, 2, 0x2C68⟩,
   ⟨0x2C6D, 0x2C6D, 2, 0x251⟩, ⟨0x2C6E, 0x2C6E, 2, 0x271⟩, ⟨0x2C6F, 0x2C6F, 2, 0x250⟩,
   ⟨0x2C70, 0x2C70, 2, 0x252⟩, ⟨0x2C72, 0x2C72, 2, 0x2C73⟩, ⟨0x2C75, 0x2C75, 2, 0x2C76⟩,
   ⟨0x2C7E, 0x2C7F, 1, 0x23F⟩, ⟨0x2C80, 0x2CE2, 2, 0x2C81⟩, ⟨0x2CEB, 0x2CED, 2, 0x2CEC⟩,
   ⟨0x2CF2, 0x2CF2, 2, 0x2CF3⟩, ⟨0xA640, 0xA66C, 2, 0xA641⟩, ⟨0xA680, 0xA69A, 2, 0xA681⟩,
   ⟨0xA722, 0xA72E, 2, 0xA723⟩, ⟨0xA732, 0xA76E, 2, 0xA733⟩, ⟨0xA779, 0xA77B, 2, 0xA77A⟩,
   ⟨0xA77D, 0xA77D, 2, 0x1D79⟩, ⟨0xA77E, 0xA786, 2, 0xA77F⟩, ⟨0xA78B, 0xA78B, 2, 0xA78C⟩,
   ⟨0xA78D, 0xA78D, 2, 0x265⟩, ⟨0xA790, 0xA792, 2, 0xA791⟩, ⟨0xA796, 0xA7A8, 2, 0xA797⟩,
   ⟨0xA7AA, 0xA7AA, 2, 0x266⟩, ⟨0xA7AB, 0xA7AB, 2, 0x25C⟩, ⟨0xA7AC, 0xA7AC, 2, 0x261⟩,
   ⟨0xA7AD, 0xA7AD, 2, 0x26C⟩, ⟨0xA7AE, 0xA7AE, 2, 0x26A⟩, ⟨0xA7B0, 0xA7B0, 2, 0x29E⟩,
   ⟨0xA7B1, 0xA7B1, 2, 0x287⟩, ⟨0xA7B2, 0xA7B2, 2, 0x29D⟩, ⟨0xA7B3, 0xA7B3, 2, 0xAB53⟩,
   ⟨0xA7B4, 0xA7C2, 2, 0xA7B5⟩, ⟨0xA7C4, 0xA7C4, 2, 0xA794⟩, ⟨0xA7C5, 0xA7C5, 2, 0x282⟩,
   ⟨0xA7C6, 0xA7C6, 2, 0x1D8E⟩, ⟨0xA7C7, 0xA7C9, 2, 0xA7C8⟩, ⟨0xA7D0, 0xA7D0, 2, 0xA7D1⟩,
   ⟨0xA7D6, 0xA7D8, 2, 0xA7D7⟩, ⟨0xA7F5, 0xA7F5, 2, 0xA7F6⟩, ⟨0xFF21, 0xFF3A, 1, 0xFF41⟩,
   ⟨0x10400, 0x10427, 1, 0x10428⟩, ⟨0x104B0, 0x104D3, 1, 0x104D8⟩,
   ⟨0x10570, 0x1057A, 1, 0x10597⟩, ⟨0x1057C, 0x1058A, 1, 0x105A3⟩,
   ⟨0x1058C, 0x10592, 1, 0x105B3⟩, ⟨0x10594, 0x10595, 1, 0x105BB⟩,
   ⟨0x10C80, 0x10CB2, 1, 0x10CC0⟩, ⟨0x118A0, 0x118BF, 1, 0x118C0⟩,
   ⟨0x16E40, 0x16E5F, 1, 0x16E60⟩, ⟨0x1E900, 0x1E921, 1, 0x1E922⟩]

/-- `unicode.ToLower`, with the ASCII fast path of the Go implementation. -/
def toLowerRune (c : Char) : Char :=
  if c.toNat < 0x80 then
    if 0x41 ≤ c.toNat ∧ c.toNat ≤ 0x5A then Char.ofNat (c.toNat + 32) else c
  else
    match caseRanges.find? (·.covers c.toNat) with
    | some r => Char.ofNat (r.image c.toNat)
    | none => c

def toLower (s : String) : String := String.ofList (s.toList.map toLowerRune)

/-! ## Case folding -/

/-- The runes whose `unicode.SimpleFold` orbit holds a second lower-case form,
with the form that represents the orbit here; and `İ`, which folds to nothing. -/
def foldExceptions : List (Nat × Nat) :=
  [(0xB5, 0x3BC), (0x130, 0x130), (0x17F, 0x73), (0x345, 0x3B9), (0x3C2, 0x3C3), (0x3D0, 0x3B2),
   (0x3D1, 0x3B8), (0x3D5, 0x3C6), (0x3D6, 0x3C0), (0x3F0, 0x3BA), (0x3F1, 0x3C1),
   (0x3F5, 0x3B5), (0x1C80, 0x432), (0x1C81, 0x434), (0x1C82, 0x43E), (0x1C83, 0x441),
   (0x1C84, 0x442), (0x1C85, 0x442), (0x1C86, 0x44A), (0x1C87, 0x463), (0x1C88, 0xA64B),
   (0x1E9B, 0x1E61), (0x1FBE, 0x3B9)]

/-- A representative of the `unicode.SimpleFold` orbit of a rune. -/
def foldRune (c : Char) : Char :=
  if c.toNat < 0x80 then toLowerRune c
  else
    match foldExceptions.lookup c.toNat with
    | some n => Char.ofNat n
    | none => toLowerRune c

def equalFold (s t : String) : Bool := s.toList.map foldRune == t.toList.map foldRune

/-! ## Prefixes, bytes and slices -/

def hasPrefix (s p : String) : Bool := p.toList.isPrefixOf s.toList

def trimPrefix (s p : String) : String :=
  if hasPrefix s p then String.ofList (s.toList.drop p.toList.length) else s

/-- The number of bytes of the UTF-8 form of a rune. -/
def runeLen (c : Char) : Nat :=
  if c.toNat < 0x80 then 1 else if c.toNat < 0x800 then 2 else if c.toNat < 0x10000 then 3 else 4

/-- `len(s)` on a Go string counts bytes. -/
def byteLen (s : String) : Nat := (s.toList.map runeLen).sum

/-- The first `n` bytes of a rune sequence, read back rune by rune: the bytes of
a rune cut in half decode to replacement characters, as every rune-wise function
of `strings` sees them. -/
def takeBytes : Nat → List Char → List Char
  | 0, _ => []
  | _, [] => []
  | n + 1, c :: cs =>
      if runeLen c ≤ n + 1 then c :: takeBytes (n + 1 - runeLen c) cs
      else List.replicate (n + 1) '\uFFFD'

/-- `s[:n]`, for an `n` within the string. -/
def sliceTo (s : String) (n : Nat) : String := String.ofList (takeBytes n s.toList)

/-! ## Facts about case and space

The table is checked once against itself (`caseRanges_avoid`); everything else
about case mapping follows from that check and the shape of `toLowerRune`. -/

namespace CaseRange

def imageHi (r : CaseRange) : Nat := r.target + (r.hi - r.lo)

/-- No rune of the image of `r` is an upper-case rune of `r'`: the intervals
are apart, or both step by two and are offset by an odd amount. -/
def imageAvoids (r r' : CaseRange) : Bool :=
  r.imageHi.blt r'.lo || r'.hi.blt r.target ||
    (r.stride.beq 2 && r'.stride.beq 2 && ((r.target + r'.lo) % 2).beq 1)

/-- The image of `r` consists of Unicode scalar values. -/
def imageValid (r : CaseRange) : Bool :=
  r.imageHi.blt 0xD800 || (Nat.ble 0xE000 r.target && r.imageHi.blt 0x110000)

variable {r : CaseRange} {n : Nat}

theorem covers_iff : r.covers n = true ↔ r.lo ≤ n ∧ n ≤ r.hi ∧ (n - r.lo) % r.stride = 0 := by
  simp [covers, and_assoc]

theorem covers_image_of_avoids {r' : CaseRange} (ha : r.imageAvoids r' = true)
    (hc : r.covers n = true) : r'.covers (r.image n) = false := by
  obtain ⟨hlo, hhi, hstep⟩ := covers_iff.mp hc
  rw [Bool.eq_false_iff]
  intro hcov
  obtain ⟨hlo', hhi', hstep'⟩ := covers_iff.mp hcov
  simp only [imageAvoids, imageHi, image, Bool.or_eq_true, Bool.and_eq_true, Nat.blt_eq,
    Nat.beq_eq] at *
  rcases ha with (h | h) | ⟨⟨h2, h2'⟩, hodd⟩
  · omega
  · omega
  · rw [h2] at hstep
    rw [h2'] at hstep'
    omega

theorem toNat_ofNat_image (hv : r.imageValid = true) (hc : r.covers n = true) :
    (Char.ofNat (r.image n)).toNat = r.image n := by
  obtain ⟨hlo, hhi, -⟩ := covers_iff.mp hc
  have hval : (r.image n).isValidChar := by
    simp only [imageValid, imageHi, Bool.or_eq_true, Bool.and_eq_true, Nat.blt_eq,
      Nat.ble_eq] at hv
    unfold Nat.isValidChar image
    omega
  rw [Char.ofNat, dif_pos hval]
  rfl

end CaseRange

theorem caseRanges_valid : caseRanges.all CaseRange.imageValid = true := by decide

theorem caseRanges_avoid :
    caseRanges.all (fun r => caseRanges.all r.imageAvoids) = true := by decide +kernel

/-- No white space has a case: neither an upper-case rune nor a lower-case
image is a space. -/
theorem caseRanges_not_space :
    caseRanges.all (fun r => whiteSpace.all fun n =>
      !r.covers n && (n.blt r.target || r.imageHi.blt n)) = true := by decide

/-- What `toLowerRune` does outside ASCII. -/
theorem toLowerRune_cases (c : Char) (h : 0x80 ≤ c.toNat) :
    (toLowerRune c = c ∧ ∀ r ∈ caseRanges, r.covers c.toNat = false) ∨
    ∃ r ∈ caseRanges, r.covers c.toNat = true ∧ (toLowerRune c).toNat = r.image c.toNat := by
  unfold toLowerRune
  rw [if_neg (by omega)]
  cases hf : caseRanges.find? (·.covers c.toNat) with
  | none =>
    left
    refine ⟨rfl, fun r hr => ?_⟩
    simpa using find?_eq_none.mp hf r hr
  | some r =>
    right
    have hmem := mem_of_find?_eq_some hf
    have hcov : r.covers c.toNat = true := by simpa using find?_some hf
    exact ⟨r, hmem, hcov,
      CaseRange.toNat_ofNat_image (all_eq_true.mp caseRanges_valid r hmem) hcov⟩

variable {c : Char} {s : String}

theorem toLowerRune_ascii (h : c.toNat < 0x80) (hup : ¬ (0x41 ≤ c.toNat ∧ c.toNat ≤ 0x5A)) :
    toLowerRune c = c := by
  unfold toLowerRune
  rw [if_pos h, if_neg hup]

theorem toNat_toLowerRune_upper (h : 0x41 ≤ c.toNat) (h' : c.toNat ≤ 0x5A) :
    (toLowerRune c).toNat = c.toNat + 32 := by
  unfold toLowerRune
  rw [if_pos (by omega), if_pos ⟨h, h'⟩]
  have hval : (c.toNat + 32).isValidChar := by
    unfold Nat.isValidChar; omega
  rw [Char.ofNat, dif_pos hval]
  rfl

theorem toLowerRune_eq_self (h : ∀ r ∈ caseRanges, r.covers c.toNat = false) :
    toLowerRune c = c := by
  by_cases hc : c.toNat < 0x80
  · refine toLowerRune_ascii hc fun hup => ?_
    -- the capitals are the first range of the table
    have hA := h ⟨0x41, 0x5A, 1, 0x61⟩ (by unfold caseRanges; exact mem_cons_self)
    rw [Bool.eq_false_iff] at hA
    exact hA (CaseRange.covers_iff.mpr ⟨hup.1, hup.2, Nat.mod_one _⟩)
  · rcases toLowerRune_cases c (by omega) with ⟨heq, -⟩ | ⟨r, hr, hcov, -⟩
    · exact heq
    · rw [h r hr] at hcov
      exact absurd hcov (by simp)

theorem toLowerRune_toLowerRune (c : Char) : toLowerRune (toLowerRune c) = toLowerRune c := by
  by_cases hc : c.toNat < 0x80
  · by_cases hup : 0x41 ≤ c.toNat ∧ c.toNat ≤ 0x5A
    · have him := toNat_toLowerRune_upper hup.1 hup.2
      exact toLowerRune_ascii (by omega) (by omega)
    · rw [toLowerRune_ascii hc hup, toLowerRune_ascii hc hup]
  · rcases toLowerRune_cases c (by omega) with ⟨heq, -⟩ | ⟨r, hr, hcov, him⟩
    · rw [heq, heq]
    · refine toLowerRune_eq_self fun r' hr' => ?_
      rw [him]
      exact CaseRange.covers_image_of_avoids
        (all_eq_true.mp (all_eq_true.mp caseRanges_avoid r hr) r' hr') hcov

theorem isSpace_toLowerRune (c : Char) : isSpace (toLowerRune c) = isSpace c := by
  by_cases hc : c.toNat < 0x80
  · by_cases hup : 0x41 ≤ c.toNat ∧ c.toNat ≤ 0x5A
    · have him := toNat_toLowerRune_upper hup.1 hup.2
      have hsp : ∀ n ∈ whiteSpace, n ≤ 0x20 ∨ 0x85 ≤ n := by decide
      have hno : ∀ d : Char, 0x20 < d.toNat → d.toNat < 0x85 → isSpace d = false := by
        intro d h1 h2
        simp only [isSpace, contains_eq_mem, decide_eq_false_iff_not]
        intro hmem
        have := hsp _ hmem
        omega
      rw [hno _ (by omega) (by omega), hno _ (by omega) (by omega)]
    · rw [toLowerRune_ascii hc hup]
  · rcases toLowerRune_cases c (by omega) with ⟨heq, -⟩ | ⟨r, hr, hcov, him⟩
    · rw [heq]
    · have hsp := all_eq_true.mp caseRanges_not_space r hr
      have hno : ∀ n ∈ whiteSpace, n ≠ c.toNat ∧ n ≠ (toLowerRune c).toNat := by
        intro n hn
        have h := all_eq_true.mp hsp n hn
        simp only [Bool.and_eq_true, Bool.not_eq_true', Bool.or_eq_true, Nat.blt_eq] at h
        obtain ⟨hlo, hhi, -⟩ := CaseRange.covers_iff.mp hcov
        constructor
        · rintro rfl
          rw [hcov] at h
          exact absurd h.1 (by simp)
        · rw [him]
          have himg : r.image c.toNat = r.target + (c.toNat - r.lo) := rfl
          have hhi' : r.imageHi = r.target + (r.hi - r.lo) := rfl
          omega
      have hout : isSpace c = false := by
        simp only [isSpace, contains_eq_mem, decide_eq_false_iff_not]
        exact fun hm => (hno _ hm).1 rfl
      have hout' : isSpace (toLowerRune c) = false := by
        simp only [isSpace, contains_eq_mem, decide_eq_false_iff_not]
        exact fun hm => (hno _ hm).2 rfl
      rw [hout, hout']

@[simp] theorem toLower_toLower (s : String) : toLower (toLower s) = toLower s := by
  simp [toLower, Function.comp_def, toLowerRune_toLowerRune]

@[simp] theorem toLower_empty : toLower "" = "" := by simp [toLower]

theorem toLower_eq_empty (h : toLower s = "") : s = "" := by
  have hlist := congrArg String.toList h
  unfold toLower at hlist
  rw [String.toList_ofList] at hlist
  exact String.toList_eq_nil_iff.mp (map_eq_nil_iff.mp hlist)

/-! ## The `ToLower(TrimSpace(s))` normal form -/

/-- `strings.ToLower(strings.TrimSpace(s))`, the normal form of a method name
and of an address. -/
def trimLower (s : String) : String := toLower (trimSpace s)

@[simp] theorem trimSpace_empty : trimSpace "" = "" := by simp [trimSpace]
@[simp] theorem trimLower_empty : trimLower "" = "" := by simp [trimLower]

theorem dropWhile_map_isSpace (l : List Char) :
    (l.map toLowerRune).dropWhile isSpace = (l.dropWhile isSpace).map toLowerRune := by
  induction l with
  | nil => rfl
  | cons c cs ih =>
    simp only [map_cons, dropWhile_cons, isSpace_toLowerRune]
    split
    · exact ih
    · rfl

theorem trimSpace_toLower (s : String) : trimSpace (toLower s) = toLower (trimSpace s) := by
  simp only [trimSpace, toLower, String.toList_ofList, List.rdropWhile, dropWhile_map_isSpace,
    ← map_reverse]

theorem dropWhile_rdropWhile_dropWhile {α : Type*} (p : α → Bool) (l : List α) :
    ((l.dropWhile p).rdropWhile p).dropWhile p = (l.dropWhile p).rdropWhile p := by
  rw [dropWhile_eq_self_iff]
  intro hlen hp
  obtain ⟨t, ht⟩ := rdropWhile_prefix p (l := l.dropWhile p)
  have hpos : 0 < (l.dropWhile p).length := by
    rw [← ht, length_append]; omega
  refine dropWhile_get_zero_not p l hpos ?_
  have hget : (l.dropWhile p).get ⟨0, hpos⟩ = ((l.dropWhile p).rdropWhile p).get ⟨0, hlen⟩ := by
    simp only [get_eq_getElem]
    rw [getElem_of_eq ht.symm, getElem_append_left hlen]
  rw [hget]
  exact hp

theorem trimSpace_trimSpace (s : String) : trimSpace (trimSpace s) = trimSpace s := by
  simp only [trimSpace, String.toList_ofList, dropWhile_rdropWhile_dropWhile,
    rdropWhile_idempotent]

@[simp] theorem trimLower_trimLower (s : String) : trimLower (trimLower s) = trimLower s := by
  simp only [trimLower, trimSpace_toLower, trimSpace_trimSpace, toLower_toLower]

@[simp] theorem trimLower_trimSpace (s : String) : trimLower (trimSpace s) = trimLower s := by
  simp only [trimLower, trimSpace_trimSpace]

@[simp] theorem trimLower_toLower (s : String) : trimLower (toLower s) = trimLower s := by
  simp only [trimLower, trimSpace_toLower, toLower_toLower]

theorem trimSpace_of_no_space (h : ∀ ch ∈ s.toList, isSpace ch = false) : trimSpace s = s := by
  have hdrop : s.toList.dropWhile isSpace = s.toList := by
    rw [dropWhile_eq_self_iff]
    intro hlen hsp
    rw [h _ (getElem_mem hlen)] at hsp
    exact Bool.false_ne_true hsp
  have hrdrop : s.toList.rdropWhile isSpace = s.toList := by
    rw [rdropWhile_eq_self_iff]
    intro hne hsp
    rw [h _ (getLast_mem hne)] at hsp
    exact Bool.false_ne_true hsp
  unfold trimSpace
  rw [hdrop, hrdrop, String.ofList_toList]

theorem no_space_of_toLower (h : ∀ ch ∈ (toLower s).toList, isSpace ch = false) :
    ∀ ch ∈ s.toList, isSpace ch = false := by
  intro ch hch
  rw [← isSpace_toLowerRune]
  refine h _ ?_
  unfold toLower
  rw [String.toList_ofList]
  exact mem_map_of_mem hch

theorem trimLower_ne_empty (h : trimSpace s ≠ "") : trimLower s ≠ "" := by
  intro hn
  apply h
  unfold trimLower toLower at hn
  have hlist : (trimSpace s).toList = [] := by
    have := congrArg String.toList hn
    simpa using this
  rw [← String.ofList_toList (s := trimSpace s), hlist]

theorem trimSpace_ne_empty {ch : Char} {rest : List Char} (hs : s.toList = ch :: rest)
    (hch : isSpace ch = false) : trimSpace s ≠ "" := by
  intro hempty
  unfold trimSpace at hempty
  have hlist := congrArg String.toList hempty
  rw [String.toList_ofList, hs, dropWhile_cons, if_neg (by simp [hch])] at hlist
  have hall := rdropWhile_eq_nil_iff.mp hlist ch mem_cons_self
  rw [hch] at hall
  cases hall

-- Request handling treats normalised strings as opaque keys; evaluation of a
-- concrete one is the kernel's business.
attribute [irreducible] trimSpace toLower equalFold trimLower

end Go
