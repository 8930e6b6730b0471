import PrivacySuite.Explorer.LogFields
import PrivacySuite.Go.Hex

/-!
# One log under two visibility maps

`redactLogData` depends on a visibility map through the slots it zeroes, and through
whether it zeroes any: data that loses nothing is returned as it was written, and
data that loses a slot is written out again. `RedactsAlike` says when two maps leave
the same text.
-/

namespace PrivacySuite.Explorer

open Go Abi

variable {visMap visMap' : VisibilityMap}

/-! ## Topics -/

theorem redactTopicField_congr {topic : String}
    (h : ∀ addr, extractTopicAddress topic = some addr → visMap addr = visMap' addr) :
    redactTopicField visMap topic = redactTopicField visMap' topic := by
  unfold redactTopicField
  cases haddr : extractTopicAddress topic with
  | none => rfl
  | some addr => simp only [h addr haddr]

/-! ## Slots -/

def zeroSlot : List UInt8 := List.replicate 32 0

/-- Two maps zero the same slots. A slot that is zero already may go either way. -/
def MasksAlike (visMap visMap' : VisibilityMap) : List AbiType → List UInt8 → Prop
  | [], _ => True
  | t :: ts, bytes =>
      (bytes.take 32 = zeroSlot ∨
        isMaskedSlot visMap t (bytes.take 32) = isMaskedSlot visMap' t (bytes.take 32)) ∧
      MasksAlike visMap visMap' ts (bytes.drop 32)

variable {bytes : List UInt8} {data contractABI : String} {pkg : Package} {topic0 : Option String}
  {types : List AbiType}

theorem maskSlots_eq_iff {ts : List AbiType} (h : ts.length * 32 ≤ bytes.length) :
    maskSlots visMap ts bytes = maskSlots visMap' ts bytes ↔
      MasksAlike visMap visMap' ts bytes := by
  induction ts generalizing bytes with
  | nil => simp [maskSlots, MasksAlike]
  | cons t ts ih =>
    rw [List.length_cons] at h
    have htake : (bytes.take 32).length = 32 := by
      rw [List.length_take]
      omega
    have hdrop : ts.length * 32 ≤ (bytes.drop 32).length := by
      rw [List.length_drop]
      omega
    have hsame : ∀ a b : Bool,
        (if a then List.replicate 32 0 else bytes.take 32).length =
          (if b then List.replicate 32 0 else bytes.take 32).length := by
      intro a b
      cases a <;> cases b <;> simp [htake]
    rw [maskSlots, maskSlots, MasksAlike, List.append_eq_append_iff_of_size_eq_left (hsame _ _),
      ih hdrop]
    refine and_congr_left fun _ => ?_
    cases isMaskedSlot visMap t (bytes.take 32) <;>
      cases isMaskedSlot visMap' t (bytes.take 32) <;> simp [zeroSlot, eq_comm]

theorem maskSlots_of_not_masks {ts : List AbiType} (h : masksSomeSlot visMap ts bytes = false) :
    maskSlots visMap ts bytes = bytes := by
  induction ts generalizing bytes with
  | nil => rfl
  | cons t ts ih =>
    rw [masksSomeSlot, Bool.or_eq_false_iff] at h
    rw [maskSlots, ih h.2, h.1, if_neg Bool.false_ne_true, List.take_append_drop]

/-! ## Data -/

def rewritten (data : String) (bytes : List UInt8) : String :=
  (if hasPrefix data "0x" ∨ hasPrefix data "0X" then "0x" else "") ++ encodeHex bytes

theorem rewritten_inj {bytes' : List UInt8} :
    rewritten data bytes = rewritten data bytes' ↔ bytes = bytes' := by
  constructor
  · intro h
    have hdigits : encodeHex bytes = encodeHex bytes' :=
      String.append_right_inj _ |>.mp h
    have hdecoded := congrArg decodeHex hdigits
    rw [decodeHex_encodeHex, decodeHex_encodeHex] at hdecoded
    exact Option.some.inj hdecoded
  · rintro rfl
    rfl

/-- Data that is what it would be written out as spells those bytes. -/
theorem eq_of_rewritten {masked : List UInt8}
    (hdata : decodeHex (trimPrefix data "0x") = some bytes) (h : data = rewritten data masked) :
    bytes = masked := by
  have hdecoded : decodeHex (trimPrefix data "0x") = some masked := by
    by_cases hp : hasPrefix data "0x" = true ∨ hasPrefix data "0X" = true
    · rw [rewritten, if_pos hp] at h
      rw [h, trimPrefix_append, decodeHex_encodeHex]
    · rw [rewritten, if_neg hp, String.empty_append] at h
      have hno : ¬ hasPrefix data "0x" = true := fun hx => hp (Or.inl hx)
      rw [trimPrefix, if_neg hno, h, decodeHex_encodeHex]
  exact Option.some.inj (hdata.symm.trans hdecoded)

/-- The two maps leave the same text of the data: they zero the same slots, and
either both write the data out again or it makes no difference. -/
def RedactsAlike (pkg : Package) (data contractABI : String) (topic0 : Option String)
    (visMap visMap' : VisibilityMap) : Prop :=
  ∀ types bytes, dataSlots pkg data contractABI topic0 = some (types, bytes) →
    MasksAlike visMap visMap' types bytes ∧
      (masksSomeSlot visMap types bytes = masksSomeSlot visMap' types bytes ∨
        data = rewritten data bytes)

theorem dataSlots_some (h : dataSlots pkg data contractABI topic0 = some (types, bytes)) :
    decodeHex (trimPrefix data "0x") = some bytes ∧ types.length * 32 ≤ bytes.length := by
  simp only [dataSlots, Option.bind_eq_bind, Option.bind_eq_some_iff,
    Option.ite_none_left_eq_some, Option.some.injEq, Prod.mk.injEq, not_or, not_lt] at h
  obtain ⟨topic, -, ev, -, bytes', hdata, ⟨-, -, hlen⟩, rfl, rfl⟩ := h
  exact ⟨hdata, hlen⟩

/-- Maps that agree on the address in it redact a word alike. -/
theorem redactsAlike_of_word {w : Word} (hdata : decodeHex (trimPrefix data "0x") = some w.val)
    (h : visMap (slotAddress w.val) = visMap' (slotAddress w.val)) :
    RedactsAlike pkg data contractABI topic0 visMap visMap' := by
  intro types bytes hslots
  obtain ⟨hbytes, hlen⟩ := dataSlots_some hslots
  obtain rfl := Option.some.inj (hdata.symm.trans hbytes)
  have hword : w.val.length = 32 := w.property
  have hmasked : ∀ t, isMaskedSlot visMap t (w.val.take 32) =
      isMaskedSlot visMap' t (w.val.take 32) := by
    intro t
    rw [isMaskedSlot, isMaskedSlot, List.take_of_length_le hword.le, h]
  cases types with
  | nil => exact ⟨trivial, Or.inl rfl⟩
  | cons t ts =>
    obtain rfl : ts = [] := by
      rw [List.length_cons] at hlen
      exact List.eq_nil_of_length_eq_zero (by omega)
    refine ⟨⟨Or.inr (hmasked t), trivial⟩, Or.inl ?_⟩
    rw [masksSomeSlot, masksSomeSlot, hmasked]
    rfl

theorem redactLogData_of_slots (h : dataSlots pkg data contractABI topic0 = some (types, bytes))
    (visMap : VisibilityMap) :
    redactLogData pkg data contractABI topic0 visMap =
      if masksSomeSlot visMap types bytes then rewritten data (maskSlots visMap types bytes)
      else data := by
  unfold redactLogData
  rw [h]
  rfl

theorem rewritten_eq_data_iff (hdata : decodeHex (trimPrefix data "0x") = some bytes)
    (hlen : types.length * 32 ≤ bytes.length) (hnone : masksSomeSlot visMap' types bytes = false) :
    rewritten data (maskSlots visMap types bytes) = data ↔
      MasksAlike visMap visMap' types bytes ∧ data = rewritten data bytes := by
  rw [← maskSlots_eq_iff hlen, maskSlots_of_not_masks hnone]
  constructor
  · intro h
    have hsame := eq_of_rewritten hdata h.symm
    exact ⟨hsame.symm, by rw [hsame]; exact h.symm⟩
  · rintro ⟨hsame, hwritten⟩
    rw [hsame]
    exact hwritten.symm

theorem redactLogData_eq_iff :
    redactLogData pkg data contractABI topic0 visMap =
        redactLogData pkg data contractABI topic0 visMap' ↔
      RedactsAlike pkg data contractABI topic0 visMap visMap' := by
  cases hslots : dataSlots pkg data contractABI topic0 with
  | none => simp [redactLogData, RedactsAlike, hslots]
  | some slots =>
    obtain ⟨types, bytes⟩ := slots
    obtain ⟨hdata, hlen⟩ := dataSlots_some hslots
    have halike : RedactsAlike pkg data contractABI topic0 visMap visMap' ↔
        MasksAlike visMap visMap' types bytes ∧
          (masksSomeSlot visMap types bytes = masksSomeSlot visMap' types bytes ∨
            data = rewritten data bytes) := by
      simp [RedactsAlike, hslots]
    rw [redactLogData_of_slots hslots, redactLogData_of_slots hslots, halike]
    cases hmask : masksSomeSlot visMap types bytes with
    | true =>
      cases hmask' : masksSomeSlot visMap' types bytes with
      | true => simp [rewritten_inj, maskSlots_eq_iff hlen]
      | false => simp [rewritten_eq_data_iff hdata hlen hmask']
    | false =>
      cases hmask' : masksSomeSlot visMap' types bytes with
      | true =>
        have hswap : MasksAlike visMap visMap' types bytes ↔
            MasksAlike visMap' visMap types bytes := by
          rw [← maskSlots_eq_iff hlen, ← maskSlots_eq_iff hlen, eq_comm]
        simp [eq_comm (a := data), rewritten_eq_data_iff hdata hlen hmask, hswap]
      | false =>
        have hkeep : MasksAlike visMap visMap' types bytes := by
          rw [← maskSlots_eq_iff hlen, maskSlots_of_not_masks hmask,
            maskSlots_of_not_masks hmask']
        simp [hkeep]

end PrivacySuite.Explorer
