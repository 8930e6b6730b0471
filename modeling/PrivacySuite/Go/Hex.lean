import PrivacySuite.Go.Json
import PrivacySuite.Go.Strings

/-!
# Hexadecimal text

Facts about `encoding/hex` that code comparing addresses as text depends on: what
is encoded decodes to itself, and a text that decodes is, in lower case, the
encoding of what it decodes to.
-/

namespace Go

open List

/-! ## Digits -/

variable {n : Nat} {c : Char} {bytes : List UInt8} {s text : String}

theorem hexDigit_hexChar (h : n < 16) : hexDigit (hexChar n) = some n := by
  interval_cases n <;> rfl

theorem hexChar_eq_zero (h : n < 16) : hexChar n = '0' ↔ n = 0 := by
  interval_cases n <;> decide

theorem runeLen_hexChar (h : n < 16) : runeLen (hexChar n) = 1 := by
  interval_cases n <;> rfl

/-- A digit is below sixteen, and its lower-case form is the digit `encoding/hex`
writes. -/
theorem hexDigit_some (h : hexDigit c = some n) : n < 16 ∧ toLowerRune c = hexChar n := by
  have hchar : c = Char.ofNat c.toNat := (Char.ofNat_toNat c).symm
  unfold hexDigit at h
  generalize c.toNat = code at h hchar
  simp only at h
  split_ifs at h with h₁ h₂ h₃ <;> obtain rfl := Option.some.inj h
  · refine ⟨by omega, ?_⟩
    obtain ⟨hlo, hhi⟩ := h₁
    subst hchar
    interval_cases code <;> rfl
  · refine ⟨by omega, ?_⟩
    obtain ⟨hlo, hhi⟩ := h₂
    subst hchar
    interval_cases code <;> rfl
  · refine ⟨by omega, ?_⟩
    obtain ⟨hlo, hhi⟩ := h₃
    subst hchar
    interval_cases code <;> rfl

/-! ## Bytes -/

def hexPair (b : UInt8) : List Char := [hexChar (b.toNat / 16), hexChar (b.toNat % 16)]

theorem high_lt (b : UInt8) : b.toNat / 16 < 16 := by
  have := b.toNat_lt
  omega

theorem low_lt (b : UInt8) : b.toNat % 16 < 16 := Nat.mod_lt _ (by decide)

@[simp] theorem toList_encodeHex (bytes : List UInt8) :
    (encodeHex bytes).toList = bytes.flatMap hexPair :=
  String.toList_ofList

theorem hexPair_eq_zeros (b : UInt8) : hexPair b = ['0', '0'] ↔ b = 0 := by
  rw [hexPair, List.cons.injEq, List.cons.injEq, hexChar_eq_zero (high_lt b),
    hexChar_eq_zero (low_lt b), ← UInt8.toNat_inj]
  constructor
  · rintro ⟨hhigh, hlow, -⟩
    simp only [UInt8.toNat_zero]
    omega
  · intro hzero
    simp [hzero]

theorem drop_flatMap_hexPair (bytes : List UInt8) (n : Nat) :
    (bytes.flatMap hexPair).drop (2 * n) = (bytes.drop n).flatMap hexPair := by
  induction bytes generalizing n with
  | nil => simp
  | cons b rest ih =>
    cases n with
    | zero => rfl
    | succ n => simpa [hexPair, mul_add] using ih n

theorem take_flatMap_hexPair (bytes : List UInt8) (n : Nat) :
    (bytes.flatMap hexPair).take (2 * n) = (bytes.take n).flatMap hexPair := by
  induction bytes generalizing n with
  | nil => simp
  | cons b rest ih =>
    cases n with
    | zero => rfl
    | succ n => simpa [hexPair, mul_add] using ih n

theorem all_zero_flatMap_hexPair (bytes : List UInt8) :
    (bytes.flatMap hexPair).all (· == '0') = bytes.all (· == 0) := by
  induction bytes with
  | nil => rfl
  | cons b rest ih =>
    have hpair : (hexPair b).all (· == '0') = (b == 0) := by
      rw [Bool.eq_iff_iff, beq_iff_eq, ← hexPair_eq_zeros b]
      simp [hexPair]
    rw [flatMap_cons, all_append, ih, hpair, all_cons]

theorem sum_runeLen_flatMap_hexPair (bytes : List UInt8) :
    ((bytes.flatMap hexPair).map runeLen).sum = 2 * bytes.length := by
  induction bytes with
  | nil => rfl
  | cons b rest ih =>
    have hpair : ((hexPair b).map runeLen).sum = 2 := by
      simp [hexPair, runeLen_hexChar (high_lt b), runeLen_hexChar (low_lt b)]
    rw [flatMap_cons, map_append, sum_append, ih, hpair, length_cons]
    omega

/-! ## Decoding -/

theorem decodeHexChars_hexPair (bytes : List UInt8) :
    decodeHexChars (bytes.flatMap hexPair) = some bytes := by
  induction bytes with
  | nil => rfl
  | cons b rest ih =>
    have hbyte : UInt8.ofNat (16 * (b.toNat / 16) + b.toNat % 16) = b := by
      rw [Nat.div_add_mod, UInt8.ofNat_toNat]
    simp only [flatMap_cons, hexPair, cons_append, nil_append, decodeHexChars,
      hexDigit_hexChar (high_lt b), hexDigit_hexChar (low_lt b), ih, Option.bind_eq_bind,
      Option.bind_some, hbyte, Option.pure_def]

@[simp] theorem decodeHex_encodeHex (bytes : List UInt8) :
    decodeHex (encodeHex bytes) = some bytes := by
  rw [decodeHex, toList_encodeHex, decodeHexChars_hexPair]

/-- Digits that decode are, in lower case, the encoding of what they decode to. -/
theorem map_toLowerRune_of_decode {digits : List Char} (h : decodeHexChars digits = some bytes) :
    digits.map toLowerRune = bytes.flatMap hexPair := by
  induction digits using decodeHexChars.induct generalizing bytes with
  | case1 =>
    obtain rfl : [] = bytes := Option.some.inj h
    rfl
  | case2 c => cases h
  | case3 hi lo rest ih =>
    simp only [decodeHexChars, Option.bind_eq_bind, Option.bind_eq_some_iff, Option.pure_def,
      Option.some.injEq] at h
    obtain ⟨high, hhigh, low, hlow, bytes', hrest, rfl⟩ := h
    obtain ⟨hhigh16, hhi⟩ := hexDigit_some hhigh
    obtain ⟨hlow16, hlo⟩ := hexDigit_some hlow
    have hnat : (UInt8.ofNat (16 * high + low)).toNat = 16 * high + low := by
      rw [UInt8.toNat_ofNat']
      omega
    have hdiv : (16 * high + low) / 16 = high := by omega
    have hmod : (16 * high + low) % 16 = low := by omega
    rw [map_cons, map_cons, ih hrest, hhi, hlo, flatMap_cons, hexPair, hnat, hdiv,
      hmod]
    rfl

/-! ## Prefixed text -/

def spelled (text : String) : Option (List UInt8) :=
  if hasPrefix text "0x" then decodeHex (trimPrefix text "0x") else none

theorem toList_of_hasPrefix (h : hasPrefix s "0x" = true) :
    ∃ digits, s.toList = '0' :: 'x' :: digits ∧ trimPrefix s "0x" = String.ofList digits := by
  have hp := h
  rw [hasPrefix, isPrefixOf_iff_prefix] at hp
  obtain ⟨digits, hdigits⟩ := hp
  refine ⟨digits, hdigits.symm, ?_⟩
  rw [trimPrefix, if_pos h, ← hdigits]
  rfl

@[simp] theorem hasPrefix_append (p s : String) : hasPrefix (p ++ s) p = true := by
  rw [hasPrefix, isPrefixOf_iff_prefix, String.toList_append]
  exact prefix_append _ _

@[simp] theorem trimPrefix_append (p s : String) : trimPrefix (p ++ s) p = s := by
  rw [trimPrefix, if_pos (hasPrefix_append p s), String.toList_append, drop_left,
    String.ofList_toList]

theorem spelled_some (h : spelled text = some bytes) :
    hasPrefix text "0x" = true ∧ decodeHex (trimPrefix text "0x") = some bytes := by
  rw [spelled, Option.ite_none_right_eq_some] at h
  exact h

@[simp] theorem spelled_encodeHex (bytes : List UInt8) :
    spelled ("0x" ++ encodeHex bytes) = some bytes := by
  rw [spelled, if_pos (hasPrefix_append _ _), trimPrefix_append, decodeHex_encodeHex]

theorem toLower_of_spelled (h : spelled text = some bytes) :
    toLower text = "0x" ++ encodeHex bytes := by
  obtain ⟨hp, hd⟩ := spelled_some h
  obtain ⟨digits, hlist, htrim⟩ := toList_of_hasPrefix hp
  rw [htrim, decodeHex, String.toList_ofList] at hd
  have hlower : toLower text = String.ofList (text.toList.map toLowerRune) := by
    unfold toLower
    rfl
  rw [hlower, hlist, map_cons, map_cons, map_toLowerRune_of_decode hd]
  apply String.toList_inj.mp
  rw [String.toList_ofList, String.toList_append, toList_encodeHex]
  rfl

theorem byteLen_encodeHex (bytes : List UInt8) :
    byteLen ("0x" ++ encodeHex bytes) = 2 + 2 * bytes.length := by
  rw [byteLen, String.toList_append, map_append, sum_append, toList_encodeHex,
    sum_runeLen_flatMap_hexPair]
  rfl

/-! ## Case folding of hexadecimal text -/

/-- The runes of lower-case hexadecimal text with its prefix. -/
def hexRunes : List Char := "0123456789abcdefx".toList

/-- No rune that folds specially folds to one of them, or has one as its lower-case
form. -/
theorem foldExceptions_not_hex :
    foldExceptions.all (fun entry => !hexRunes.contains (Char.ofNat entry.2) &&
      !hexRunes.contains (toLowerRune (Char.ofNat entry.1))) = true := by
  decide

theorem foldRune_hexRunes :
    hexRunes.all (fun h => foldRune h == h && toLowerRune h == h) = true := by
  decide

theorem foldRune_eq_iff {h : Char} (hh : h ∈ hexRunes) :
    foldRune c = foldRune h ↔ toLowerRune c = h := by
  have hself := all_eq_true.mp foldRune_hexRunes h hh
  rw [Bool.and_eq_true, beq_iff_eq, beq_iff_eq] at hself
  rw [hself.1]
  unfold foldRune
  split
  · rfl
  · cases hlookup : foldExceptions.lookup c.toNat with
    | none => rfl
    | some n =>
      have hmem : (c.toNat, n) ∈ foldExceptions := by
        obtain ⟨before, after, hsplit, -⟩ := lookup_eq_some_iff.mp hlookup
        simp [hsplit]
      have hnot := all_eq_true.mp foldExceptions_not_hex _ hmem
      simp only [Char.ofNat_toNat, Bool.and_eq_true, Bool.not_eq_true', contains_eq_mem,
        decide_eq_false_iff_not] at hnot
      constructor
      · intro heq
        have heq' : Char.ofNat n = h := heq
        exact absurd (heq' ▸ hh) hnot.1
      · intro heq
        exact absurd (heq ▸ hh) hnot.2

theorem hexPair_subset_hexRunes (b : UInt8) : ∀ h ∈ hexPair b, h ∈ hexRunes := by
  have hdigit : ∀ n < 16, hexChar n ∈ hexRunes := by decide
  intro h hh
  simp only [hexPair, mem_cons, not_mem_nil, or_false] at hh
  rcases hh with rfl | rfl
  · exact hdigit _ (high_lt b)
  · exact hdigit _ (low_lt b)

/-- Equality under folding with hexadecimal text is equality in lower case. -/
theorem equalFold_of_spelled {t : String} (h : spelled t = some bytes) :
    equalFold s (toLower t) = (toLower s == toLower t) := by
  have hrunes : ∀ ch ∈ (toLower t).toList, ch ∈ hexRunes := by
    rw [toLower_of_spelled h, String.toList_append, toList_encodeHex]
    intro ch hch
    have hpre : ("0x".toList.all hexRunes.contains) = true := by decide
    rcases mem_append.mp hch with hch | hch
    · exact contains_iff_mem.mp (all_eq_true.mp hpre ch hch)
    · obtain ⟨b, -, hb⟩ := mem_flatMap.mp hch
      exact hexPair_subset_hexRunes b ch hb
  have hmaps : ∀ l u : List Char, (∀ ch ∈ u, ch ∈ hexRunes) →
      (l.map foldRune = u.map foldRune ↔ l.map toLowerRune = u) := by
    intro l
    induction l with
    | nil => intro u _; cases u <;> simp
    | cons c l ih =>
      intro u hu
      cases u with
      | nil => simp
      | cons d u =>
        simp only [map_cons, List.cons.injEq]
        rw [foldRune_eq_iff (hu d mem_cons_self),
          ih u fun ch hch => hu ch (mem_cons_of_mem _ hch)]
  have hlower : toLower s = String.ofList (s.toList.map toLowerRune) := by
    unfold toLower
    rfl
  rw [Bool.eq_iff_iff, beq_iff_eq, hlower, ← String.toList_inj, String.toList_ofList,
    ← hmaps s.toList _ hrunes]
  unfold equalFold
  rw [beq_iff_eq]

end Go
