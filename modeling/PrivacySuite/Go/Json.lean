import PrivacySuite.Go.Strings

/-!
# Decoded JSON and hexadecimal text

`Json` is the shape `encoding/json` gives a value decoded into `any`: an object
is a `map[string]any`, kept here as the list of its entries, an array a `[]any`.
A number keeps its literal, since no caller computes with it.
-/

namespace Go

/-- A JSON value decoded into an `any`. -/
inductive Json where
  | null
  | bool (b : Bool)
  | num (literal : String)
  | str (s : String)
  | arr (items : List Json)
  | obj (entries : List (String × Json))

namespace Json

/-- `v.(string)`. -/
def asString : Json → Option String
  | .str s => some s
  | _ => none

/-- `v.([]any)`. -/
def asArray : Json → Option (List Json)
  | .arr items => some items
  | _ => none

/-- `v.(map[string]any)`. -/
def asObject : Json → Option (List (String × Json))
  | .obj entries => some entries
  | _ => none

/-- `v.(bool)`. -/
def asBool : Json → Option Bool
  | .bool b => some b
  | _ => none

/-- `v == nil`. -/
def isNull : Json → Bool
  | .null => true
  | _ => false

end Json

/-- `m[key].(string)`: the entry, when it is there and is a string. -/
def stringField (entries : List (String × Json)) (key : String) : Option String :=
  (entries.lookup key).bind Json.asString

/-- `params[0].(map[string]any)`: the call object of a request, when there is one. -/
def firstObject (params : List Json) : Option (List (String × Json)) :=
  params.head?.bind Json.asObject

/-- A member of an object that is left out when its text is empty. -/
def textEntry (key value : String) : List (String × Json) :=
  if value = "" then [] else [(key, .str value)]

/-! ## Decoding into a struct -/

/-- Decoding into a string variable: `null` leaves it alone. -/
def intoString (current : String) : Json → Option String
  | .null => some current
  | .str s => some s
  | _ => none

def intoStrings (_current : List String) : Json → Option (List String)
  | .null => some []
  | .arr items => items.mapM (intoString "")
  | _ => none

/-- A field of a struct: the members whose key is the field's name up to case are
decoded into it in order. -/
def structField {α : Type} (decode : α → Json → Option α) (zero : α)
    (entries : List (String × Json)) (name : String) : Option α :=
  (entries.filter fun entry => equalFold entry.1 name).foldlM (fun acc entry => decode acc entry.2)
    zero

@[simp] theorem structField_nil {α : Type} (decode : α → Json → Option α) (zero : α)
    (name : String) : structField decode zero [] name = some zero := rfl

theorem structField_cons {α : Type} (decode : α → Json → Option α) (zero : α) (key : String)
    (v : Json) (rest : List (String × Json)) (name : String) :
    structField decode zero ((key, v) :: rest) name =
      if equalFold key name then (decode zero v).bind fun a => structField decode a rest name
      else structField decode zero rest name := by
  unfold structField
  cases h : equalFold key name <;> simp [h]

/-! ## `encoding/hex` -/

/-- The value of one hexadecimal digit, in either case. -/
def hexDigit (c : Char) : Option Nat :=
  let n := c.toNat
  if 0x30 ≤ n ∧ n ≤ 0x39 then some (n - 0x30)
  else if 0x61 ≤ n ∧ n ≤ 0x66 then some (n - 0x61 + 10)
  else if 0x41 ≤ n ∧ n ≤ 0x46 then some (n - 0x41 + 10)
  else none

def decodeHexChars : List Char → Option (List UInt8)
  | [] => some []
  | [_] => none
  | hi :: lo :: rest => do
      let h ← hexDigit hi
      let l ← hexDigit lo
      let bytes ← decodeHexChars rest
      return UInt8.ofNat (16 * h + l) :: bytes

/-- `hex.DecodeString`; `none` is its error. -/
def decodeHex (s : String) : Option (List UInt8) := decodeHexChars s.toList

def hexChar (n : Nat) : Char := if n < 10 then Char.ofNat (0x30 + n) else Char.ofNat (0x57 + n)

/-- `hex.EncodeToString`. -/
def encodeHex (bytes : List UInt8) : String :=
  String.ofList (bytes.flatMap fun b => [hexChar (b.toNat / 16), hexChar (b.toNat % 16)])

end Go
