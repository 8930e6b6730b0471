import PrivacySuite.Go.Strings
import PrivacySuite.Go.Utf8

/-!
# Member names up to case

`foldKey` of `internal/proxy`: the key under which the members of an envelope are compared. An
ASCII name goes to upper case; in any other name each rune becomes the least one of its fold
orbit, which `unicode.SimpleFold` walks through. Both decide `strings.EqualFold`
(`foldKey_eq_iff`).
-/

namespace PrivacySuite.Proxy

open Go

/-- From a rune it comes to the runes that fold with it, and to no others. -/
structure SimpleFold where
  next : Char → Char
  orbit : ∀ c d, foldRune d = foldRune c ↔ ∃ n, next^[n] c = d

namespace SimpleFold

variable (fold : SimpleFold)

theorem foldRune_next (c : Char) : foldRune (fold.next c) = foldRune c :=
  (fold.orbit c _).mpr ⟨1, rfl⟩

/-- The loop over an orbit: from `f` on until `r` comes again. -/
def lowestFrom (r f lowest : Char) (h : foldRune r = foldRune f) : Char :=
  if f = r then lowest
  else lowestFrom r (fold.next f) (min f lowest)
    (h.trans (fold.foldRune_next f).symm)
termination_by Nat.find ((fold.orbit f r).mp h)
decreasing_by
  rename_i hne
  -- one step fewer is left
  have hspec := Nat.find_spec ((fold.orbit f r).mp h)
  cases hn : Nat.find ((fold.orbit f r).mp h) with
  | zero =>
    rw [hn] at hspec
    exact absurd hspec hne
  | succ n =>
    rw [hn] at hspec
    exact Nat.lt_succ_of_le (Nat.find_min' _ hspec)

def lowest (r : Char) : Char := fold.lowestFrom r (fold.next r) r (fold.foldRune_next r).symm

def foldKey (s : List UInt8) : String :=
  if s.all (fun b => b.toNat < 0x80) then String.ofList ((runes s).map Char.toUpper)
  else String.ofList ((runes s).map fold.lowest)

/-- What the loop returns is of the orbit, and no rune it meets is less. -/
theorem lowestFrom_spec (r f lowest : Char) (h : foldRune r = foldRune f)
    (hlowest : foldRune lowest = foldRune r) :
    foldRune (fold.lowestFrom r f lowest h) = foldRune r ∧
      fold.lowestFrom r f lowest h ≤ lowest ∧
      ∀ n, (∀ k ≤ n, fold.next^[k] f ≠ r) → fold.lowestFrom r f lowest h ≤ fold.next^[n] f := by
  induction f, lowest, h using lowestFrom.induct fold r with
  | case1 lowest h =>
    rw [lowestFrom, if_pos rfl]
    exact ⟨hlowest, le_rfl, fun n hn => absurd rfl (hn 0 (Nat.zero_le n))⟩
  | case2 f lowest h hne ih =>
    rw [lowestFrom, if_neg hne]
    have hclass : foldRune (min f lowest) = foldRune r := by
      rcases min_choice f lowest with hmin | hmin <;> rw [hmin]
      · exact h.symm
      · exact hlowest
    obtain ⟨horbit, hle, hrest⟩ := ih hclass
    rw [le_min_iff] at hle
    refine ⟨horbit, hle.2, fun n hn => ?_⟩
    cases n with
    | zero => exact hle.1
    | succ n => exact hrest n fun k hk => hn (k + 1) (Nat.succ_le_succ hk)

theorem lowest_spec (r : Char) : foldRune (fold.lowest r) = foldRune r ∧
    ∀ d, foldRune d = foldRune r → fold.lowest r ≤ d := by
  obtain ⟨horbit, hle, hmet⟩ :=
    fold.lowestFrom_spec r (fold.next r) r (fold.foldRune_next r).symm rfl
  refine ⟨horbit, fun d hd => ?_⟩
  have hfound := (fold.orbit r d).mp hd
  have hspec := Nat.find_spec hfound
  cases hn : Nat.find hfound with
  | zero =>
    rw [hn] at hspec
    exact hspec ▸ hle
  | succ n =>
    rw [hn] at hspec
    rw [← hspec]
    -- the first time the walk comes to `d`, it has not been back yet
    refine hmet n fun k hk hback => ?_
    refine Nat.find_min hfound (m := n - k) (by omega) ?_
    rw [← hspec, show n + 1 = (n - k) + (k + 1) by omega, Function.iterate_add_apply]
    exact congrArg _ hback.symm

theorem lowest_eq_iff (c d : Char) : fold.lowest c = fold.lowest d ↔ foldRune c = foldRune d := by
  obtain ⟨hc, hcle⟩ := fold.lowest_spec c
  obtain ⟨hd, hdle⟩ := fold.lowest_spec d
  constructor
  · intro h
    rw [← hc, h, hd]
  · intro h
    exact le_antisymm (hcle _ (hd.trans h.symm)) (hdle _ (hc.trans h))

theorem toUpper_ascii : ∀ n < 0x80, foldRune (Char.ofNat n).toUpper = foldRune (Char.ofNat n) ∧
    (foldRune (Char.ofNat n)).toUpper = (Char.ofNat n).toUpper ∧
    (Char.ofNat n).toUpper ≤ Char.ofNat n := by
  decide +kernel

theorem lowest_ascii {c : Char} (hc : c.toNat < 0x80) : fold.lowest c = c.toUpper := by
  obtain ⟨horbit, hleast⟩ := fold.lowest_spec c
  have hascii := toUpper_ascii c.toNat hc
  rw [Char.ofNat_toNat] at hascii
  refine le_antisymm (hleast _ hascii.1) ?_
  by_cases hd : (fold.lowest c).toNat < 0x80
  · have hlow := toUpper_ascii _ hd
    rw [Char.ofNat_toNat] at hlow
    rw [← hascii.2.1, ← horbit, hlow.2.1]
    exact hlow.2.2
  · refine le_trans hascii.2.2 ?_
    show c.toNat ≤ (fold.lowest c).toNat
    omega

theorem foldKey_eq (s : List UInt8) :
    fold.foldKey s = String.ofList ((runes s).map fold.lowest) := by
  unfold foldKey
  split
  · rename_i hascii
    rw [List.map_congr_left fun c hc => ?_]
    have hall := all_runes (p := fun c => decide (c.toNat < 0x80)) (by simp) s
    simp only [toNat_ofNat_byte, hascii, List.all_eq_true, decide_eq_true_eq] at hall
    exact (fold.lowest_ascii (hall c hc)).symm
  · rfl

/-- Two names have one key exactly if they are equal up to case. -/
theorem foldKey_eq_iff (a b : List UInt8) : fold.foldKey a = fold.foldKey b ↔
    equalFold (String.ofList (runes a)) (String.ofList (runes b)) = true := by
  rw [fold.foldKey_eq, fold.foldKey_eq, String.ofList_inj]
  unfold equalFold
  rw [beq_iff_eq, String.toList_ofList, String.toList_ofList]
  simp only [← List.forall₂_eq_eq_eq, List.forall₂_map_left_iff, List.forall₂_map_right_iff,
    lowest_eq_iff]

end SimpleFold

/-- There is such a function: each class is finite, so a permutation runs through it. -/
theorem nonempty_simpleFold : Nonempty SimpleFold := by
  have hfinite : Finite Char := Finite.of_injective (fun c => c.val.toFin) fun c d h =>
    Char.ext (UInt32.toFin_inj.mp h)
  obtain ⟨hfintype⟩ := nonempty_fintype Char
  choose cycle hcycle using fun k => (Finset.univ.filter (foldRune · = k)).exists_cycleOn
  have hmem : ∀ {c d}, d ∈ Finset.univ.filter (foldRune · = foldRune c) ↔
      foldRune d = foldRune c := by
    simp
  have hpow : ∀ c n, (fun c => cycle (foldRune c) c)^[n] c = (cycle (foldRune c) ^ n) c ∧
      foldRune ((cycle (foldRune c) ^ n) c) = foldRune c := by
    intro c n
    induction n with
    | zero => exact ⟨rfl, rfl⟩
    | succ n ih =>
      rw [Function.iterate_succ_apply', ih.1, ih.2, pow_succ', Equiv.Perm.mul_apply]
      exact ⟨rfl, hmem.mp ((hcycle _).1.1.mapsTo (hmem.mpr ih.2))⟩
  refine ⟨⟨fun c => cycle (foldRune c) c, fun c d => ⟨fun hd => ?_, ?_⟩⟩⟩
  · obtain ⟨n, -, hn⟩ := (hcycle (foldRune c)).1.exists_pow_eq (hmem.mpr rfl) (hmem.mpr hd)
    exact ⟨n, (hpow c n).1.trans hn⟩
  · rintro ⟨n, rfl⟩
    rw [(hpow c n).1, (hpow c n).2]

/-- `key` with the Kelvin sign has the key of `KEY`, and `id` has not that of `ids`. -/
theorem foldKey_of_spellings :
    ∃ fold : SimpleFold,
      fold.foldKey [0xe2, 0x84, 0xaa, 0x65, 0x79] = fold.foldKey [0x4b, 0x45, 0x59] ∧
      fold.foldKey [0x69, 0x64] ≠ fold.foldKey [0x69, 0x64, 0x73] := by
  obtain ⟨fold⟩ := nonempty_simpleFold
  refine ⟨fold, (fold.foldKey_eq_iff _ _).mpr (by decide +kernel), fun hsame => ?_⟩
  have hfold := (fold.foldKey_eq_iff _ _).mp hsame
  exact absurd hfold (by decide +kernel)

end PrivacySuite.Proxy
