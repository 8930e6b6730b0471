import Mathlib

/-!
# Static ABI types

The contract ABI for types of a fixed size. A value of such a type is encoded as
the words of its elementary components, one after another, in depth-first order;
so the encoding is determined by the list of leaves of the type, and a decoder
only has to check each word against its leaf.

The dynamic types are here because declarations name them. They have no leaves,
and nothing decodes at them.
-/

namespace Abi

open List

inductive Leaf where
  | address
  | uint (bits : Nat)
  | int (bits : Nat)
  | bool
  | fixedBytes (size : Nat)
  | function
  deriving DecidableEq, Repr

inductive AbiType where
  | leaf (l : Leaf)
  | array (elem : AbiType) (size : Nat)
  | tuple (elems : List AbiType)
  | bytes
  | string
  | slice (elem : AbiType)

abbrev Word := { bytes : List UInt8 // bytes.length = 32 }

def zeroWord : Word := ⟨List.replicate 32 0, List.length_replicate⟩

def Word.toNat (w : Word) : Nat := w.val.foldl (fun n b => 256 * n + b.toNat) 0

/-- Twelve zero bytes in front: the shape of an address. -/
def isAddressShape (bytes : List UInt8) : Bool := (bytes.take 12).all (· == 0)

def Leaf.valid (l : Leaf) (w : Word) : Bool :=
  match l with
  | .address => isAddressShape w.val
  | .uint bits => decide (w.toNat < 2 ^ bits)
  | .int bits =>
      decide (w.toNat < 2 ^ (bits - 1)) || decide (2 ^ 256 - 2 ^ (bits - 1) ≤ w.toNat)
  | .bool => decide (w.toNat ≤ 1)
  | .fixedBytes size => (w.val.drop size).all (· == 0)
  | .function => (w.val.drop 24).all (· == 0)

/-! ## Leaves -/

mutual

/-- The elementary components of a type, depth first. -/
def AbiType.leaves : AbiType → List Leaf
  | .leaf l => [l]
  | .array elem size => (List.replicate size elem.leaves).flatten
  | .tuple elems => leavesOf elems
  | .bytes => []
  | .string => []
  | .slice _ => []

def leavesOf : List AbiType → List Leaf
  | [] => []
  | t :: rest => t.leaves ++ leavesOf rest

end

mutual

def AbiType.isStatic : AbiType → Bool
  | .leaf _ => true
  | .array elem _ => elem.isStatic
  | .tuple elems => allStatic elems
  | .bytes => false
  | .string => false
  | .slice _ => false

def allStatic : List AbiType → Bool
  | [] => true
  | t :: rest => t.isStatic && allStatic rest

end

/-! ## Values -/

/-- A value: a word, or the values of its components. -/
inductive Value where
  | word (w : Word)
  | items (values : List Value)

mutual

def Value.words : Value → List Word
  | .word w => [w]
  | .items values => wordsOf values

def wordsOf : List Value → List Word
  | [] => []
  | v :: rest => v.words ++ wordsOf rest

end

def decodeMany (read : List Word → Option (Value × List Word)) :
    Nat → List Word → Option (List Value × List Word)
  | 0, ws => some ([], ws)
  | n + 1, ws => do
      let (v, rest) ← read ws
      let (vs, rest) ← decodeMany read n rest
      return (v :: vs, rest)

mutual

/-- Read one value from the front of the words. -/
def AbiType.decode : AbiType → List Word → Option (Value × List Word)
  | .leaf _, [] => none
  | .leaf l, w :: rest => if l.valid w then some (.word w, rest) else none
  | .array elem size, ws => (decodeMany elem.decode size ws).map fun r => (.items r.1, r.2)
  | .tuple elems, ws => (decodeAll elems ws).map fun r => (.items r.1, r.2)
  | .bytes, _ => none
  | .string, _ => none
  | .slice _, _ => none

def decodeAll : List AbiType → List Word → Option (List Value × List Word)
  | [], ws => some ([], ws)
  | t :: ts, ws => do
      let (v, rest) ← t.decode ws
      let (vs, rest) ← decodeAll ts rest
      return (v :: vs, rest)

end

/-! ## What decoding means

A decoder reads off the words of the value it returns, each valid at its leaf, and
it fails on no other input: any list of words that are valid at the leaves of the
types decodes to a value with exactly these words.
-/

/-- Words that are valid, one by one, at a list of leaves. -/
abbrev Fits (leaves : List Leaf) (ws : List Word) : Prop :=
  List.Forall₂ (fun l w => l.valid w = true) leaves ws

variable {ls₁ ls₂ leaves : List Leaf} {read : List Word → Option (Value × List Word)}

theorem Fits.append {ws₁ ws₂ : List Word} (h₁ : Fits ls₁ ws₁) (h₂ : Fits ls₂ ws₂) :
    Fits (ls₁ ++ ls₂) (ws₁ ++ ws₂) :=
  rel_append h₁ h₂

/-- Words that fit two lists of leaves split where the first list ends. -/
theorem Fits.split {ws : List Word} (h : Fits (ls₁ ++ ls₂) ws) :
    ∃ ws₁ ws₂, ws = ws₁ ++ ws₂ ∧ Fits ls₁ ws₁ ∧ Fits ls₂ ws₂ := by
  induction ls₁ generalizing ws with
  | nil => exact ⟨[], ws, rfl, List.Forall₂.nil, h⟩
  | cons l ls₁ ih =>
    rcases h with _ | ⟨hw, hrest⟩
    obtain ⟨ws₁, ws₂, rfl, h₁, h₂⟩ := ih hrest
    exact ⟨_ :: ws₁, ws₂, rfl, List.Forall₂.cons hw h₁, h₂⟩

/-- What a reader does for one value: it takes the value's words off the front. -/
def Reads (read : List Word → Option (Value × List Word)) (leaves : List Leaf) : Prop :=
  ∀ ws v rest, read ws = some (v, rest) → ws = v.words ++ rest ∧ Fits leaves v.words

/-- A reader that accepts every list of fitting words. -/
def Accepts (read : List Word → Option (Value × List Word)) (leaves : List Leaf) : Prop :=
  ∀ ws rest, Fits leaves ws → ∃ v, read (ws ++ rest) = some (v, rest) ∧ v.words = ws

theorem decodeMany_reads (hread : Reads read leaves) (n : Nat) (ws : List Word) (vs : List Value)
    (rest : List Word) (h : decodeMany read n ws = some (vs, rest)) :
    ws = wordsOf vs ++ rest ∧ Fits (List.replicate n leaves).flatten (wordsOf vs) := by
  induction n generalizing ws vs with
  | zero =>
    obtain ⟨rfl, rfl⟩ : [] = vs ∧ ws = rest := by simpa [decodeMany] using h
    exact ⟨rfl, List.Forall₂.nil⟩
  | succ n ih =>
    simp only [decodeMany, Option.bind_eq_bind, Option.bind_eq_some_iff, Prod.exists,
      Option.pure_def, Option.some.injEq, Prod.mk.injEq] at h
    obtain ⟨v, mid, hv, vs', rest', hvs, rfl, rfl⟩ := h
    obtain ⟨rfl, hfit⟩ := hread ws v mid hv
    obtain ⟨rfl, hfits⟩ := ih mid vs' hvs
    exact ⟨by simp [wordsOf], by simpa [replicate_succ, wordsOf] using hfit.append hfits⟩

theorem decodeMany_accepts (hread : Accepts read leaves) (n : Nat) (ws rest : List Word)
    (h : Fits (List.replicate n leaves).flatten ws) :
    ∃ vs, decodeMany read n (ws ++ rest) = some (vs, rest) ∧ wordsOf vs = ws := by
  induction n generalizing ws with
  | zero =>
    obtain rfl : ws = [] := by simpa using h
    exact ⟨[], rfl, rfl⟩
  | succ n ih =>
    rw [replicate_succ, flatten_cons] at h
    obtain ⟨ws₁, ws₂, rfl, h₁, h₂⟩ := h.split
    obtain ⟨v, hv, rfl⟩ := hread ws₁ (ws₂ ++ rest) h₁
    obtain ⟨vs, hvs, rfl⟩ := ih ws₂ h₂
    exact ⟨v :: vs, by simp [decodeMany, hv, hvs], rfl⟩

mutual

theorem AbiType.decode_reads : (t : AbiType) → Reads t.decode t.leaves
  | .leaf l, ws, v, rest, h => by
    match ws, h with
    | w :: ws, h =>
      rw [AbiType.decode, Option.ite_none_right_eq_some] at h
      obtain ⟨hw, hv⟩ := h
      obtain ⟨rfl, rfl⟩ : Value.word w = v ∧ ws = rest := by simpa using hv
      exact ⟨rfl, List.Forall₂.cons hw List.Forall₂.nil⟩
  | .array elem size, ws, v, rest, h => by
    rw [AbiType.decode, Option.map_eq_some_iff] at h
    obtain ⟨⟨vs, rest'⟩, hvs, heq⟩ := h
    obtain ⟨rfl, rfl⟩ : Value.items vs = v ∧ rest' = rest := by simpa using heq
    exact decodeMany_reads (AbiType.decode_reads elem) size ws vs rest' hvs
  | .tuple elems, ws, v, rest, h => by
    rw [AbiType.decode, Option.map_eq_some_iff] at h
    obtain ⟨⟨vs, rest'⟩, hvs, heq⟩ := h
    obtain ⟨rfl, rfl⟩ : Value.items vs = v ∧ rest' = rest := by simpa using heq
    exact decodeAll_reads elems ws vs rest' hvs
  | .bytes, _, _, _, h | .string, _, _, _, h | .slice _, _, _, _, h => by
    simp [AbiType.decode] at h

/-- Decoding takes the words of the values off the front, each valid at its leaf. -/
theorem decodeAll_reads : (ts : List AbiType) → (ws : List Word) → (vs : List Value) →
    (rest : List Word) → decodeAll ts ws = some (vs, rest) →
    ws = wordsOf vs ++ rest ∧ Fits (leavesOf ts) (wordsOf vs)
  | [], ws, vs, rest, h => by
    obtain ⟨rfl, rfl⟩ : [] = vs ∧ ws = rest := by simpa [decodeAll] using h
    exact ⟨rfl, List.Forall₂.nil⟩
  | t :: ts, ws, vs, rest, h => by
    simp only [decodeAll, Option.bind_eq_bind, Option.bind_eq_some_iff, Prod.exists,
      Option.pure_def, Option.some.injEq, Prod.mk.injEq] at h
    obtain ⟨v, mid, hv, vs', rest', hvs, rfl, rfl⟩ := h
    obtain ⟨rfl, hfit⟩ := AbiType.decode_reads t ws v mid hv
    obtain ⟨rfl, hfits⟩ := decodeAll_reads ts mid vs' rest' hvs
    exact ⟨by simp [wordsOf], by simpa [leavesOf, wordsOf] using hfit.append hfits⟩

end

mutual

theorem AbiType.decode_accepts : (t : AbiType) → t.isStatic = true → Accepts t.decode t.leaves
  | .leaf l, _, ws, rest, h => by
    obtain ⟨w, rfl, hw⟩ : ∃ w, ws = [w] ∧ l.valid w = true := by
      simpa [AbiType.leaves, forall₂_cons_left_iff, and_comm] using h
    exact ⟨.word w, by simp [AbiType.decode, hw], rfl⟩
  | .array elem size, hs, ws, rest, h => by
    obtain ⟨vs, hvs, hws⟩ := decodeMany_accepts
      (AbiType.decode_accepts elem (by simpa [AbiType.isStatic] using hs)) size ws rest h
    exact ⟨.items vs, by simp [AbiType.decode, hvs], hws⟩
  | .tuple elems, hs, ws, rest, h => by
    obtain ⟨vs, hvs, hws⟩ :=
      decodeAll_accepts elems (by simpa [AbiType.isStatic] using hs) ws rest h
    exact ⟨.items vs, by simp [AbiType.decode, hvs], hws⟩
  | .bytes, hs, _, _, _ | .string, hs, _, _, _ | .slice _, hs, _, _, _ => by
    simp [AbiType.isStatic] at hs

/-- Static types decode every list of fitting words, to a value with these words. -/
theorem decodeAll_accepts : (ts : List AbiType) → allStatic ts = true →
    (ws rest : List Word) → Fits (leavesOf ts) ws →
    ∃ vs, decodeAll ts (ws ++ rest) = some (vs, rest) ∧ wordsOf vs = ws
  | [], _, ws, rest, h => by
    obtain rfl : ws = [] := by simpa [leavesOf] using h
    exact ⟨[], rfl, rfl⟩
  | t :: ts, hs, ws, rest, h => by
    have hss : t.isStatic = true ∧ allStatic ts = true := by simpa [allStatic] using hs
    obtain ⟨ws₁, ws₂, rfl, h₁, h₂⟩ := Fits.split (by simpa only [leavesOf] using h)
    obtain ⟨v, hv, rfl⟩ := AbiType.decode_accepts t hss.1 ws₁ (ws₂ ++ rest) h₁
    obtain ⟨vs, hvs, rfl⟩ := decodeAll_accepts ts hss.2 ws₂ rest h₂
    exact ⟨v :: vs, by simp [decodeAll, hv, hvs], rfl⟩

end

/-! ## The zero word -/

theorem Leaf.valid_zeroWord (l : Leaf) : l.valid zeroWord = true := by
  have hnat : zeroWord.toNat = 0 := by decide
  cases l with
  | address | function => decide
  | uint | int | bool => simp [Leaf.valid, hnat]
  | fixedBytes size =>
    rw [Leaf.valid, all_eq_true]
    intro b hb
    simpa using eq_of_mem_replicate (mem_of_mem_drop hb)

end Abi
