import PrivacySuite.Abi.Types
import PrivacySuite.Go.Hex

/-!
# Event declarations and logs

An event declaration, and what a log of it says: the indexed parameters are topics
of one word each, the others are encoded together as the data. An indexed parameter
that is not elementary is a topic that holds a hash, so nothing but the word itself
can be read back from it.

The decoder here is for declarations whose non-indexed parameters are all static.
-/

namespace Abi

open Go List

mutual

/-- The type as a declaration spells it. -/
def AbiType.kind : AbiType → String
  | .leaf .address => "address"
  | .leaf (.uint bits) => "uint" ++ toString bits
  | .leaf (.int bits) => "int" ++ toString bits
  | .leaf .bool => "bool"
  | .leaf (.fixedBytes size) => "bytes" ++ toString size
  | .leaf .function => "function"
  | .array elem size => elem.kind ++ "[" ++ toString size ++ "]"
  | .tuple elems => "(" ++ kindsOf elems ++ ")"
  | .bytes => "bytes"
  | .string => "string"
  | .slice elem => elem.kind ++ "[]"

def kindsOf : List AbiType → String
  | [] => ""
  | [t] => t.kind
  | t :: rest => t.kind ++ "," ++ kindsOf rest

end

structure Argument where
  indexed : Bool
  type : AbiType

/-- A declaration; `id` is the `0x` text of the hash of its signature. -/
structure Event where
  id : String
  anonymous : Bool := false
  inputs : List Argument

namespace Event

variable (ev : Event)

def indexed : List AbiType := (ev.inputs.filter (·.indexed)).map (·.type)

def nonIndexed : List AbiType := (ev.inputs.filter (!·.indexed)).map (·.type)

end Event

/-- A value as the ABI package unpacks it; the Go types nothing compares with are
`other`. -/
inductive Unpacked where
  | address (bytes : List UInt8)
  | bigInt (n : Int)
  | bool (b : Bool)
  | bytes32 (bytes : List UInt8)
  | other

/-- The ABI package of the node's client library. `json` parses a contract ABI and
gives its events, in the order a scan visits them. `unpack` decodes data, and
`repacks` is whether encoding what it decoded gives the same data back. -/
structure Package where
  json : String → Option (List Event)
  unpack : List AbiType → List UInt8 → Option (List Unpacked) := fun _ _ => none
  repacks : List AbiType → List UInt8 → Bool := fun _ _ => false

/-- A word unpacked at an elementary type. The first bytes of an address are not looked
at, and the integers of four sizes have Go types of their own. -/
def Leaf.unpack (l : Leaf) (w : Word) : Option Unpacked :=
  match l with
  | .address => some (.address (w.val.drop 12))
  | .uint bits | .int bits =>
      if bits ∉ [8, 16, 32, 64] then
        some (.bigInt (if l = .int bits ∧ 2 ^ 255 ≤ w.toNat then w.toNat - 2 ^ 256 else w.toNat))
      else if l.valid w then some .other else none
  | .bool => if l.valid w then some (.bool (w.toNat = 1)) else none
  | .fixedBytes size => some (if size = 32 then .bytes32 w.val else .other)
  | .function => if l.valid w then some .other else none

/-- Elementary types unpacked word by word. What follows the last word is not looked at. -/
def unpackLeaves : List AbiType → List UInt8 → Option (List Unpacked)
  | [], _ => some []
  | .leaf l :: types, bytes =>
      if h : (bytes.take 32).length = 32 then do
        let value ← l.unpack ⟨bytes.take 32, h⟩
        let values ← unpackLeaves types (bytes.drop 32)
        return value :: values
      else none
  | _ :: _, _ => none

/-- A package at work on one contract ABI. It unpacks the events of elementary types. -/
def Package.ofABI (text : String) (events : List Event) : Package where
  json abi := if abi = text then some events else none
  unpack := unpackLeaves

/-! ## Words and bytes -/

def bytesOf (ws : List Word) : List UInt8 := ws.flatMap (·.val)

def splitWords : Nat → List UInt8 → Option (List Word)
  | 0, bytes => if bytes = [] then some [] else none
  | n + 1, bytes =>
      if h : (bytes.take 32).length = 32 then
        (splitWords n (bytes.drop 32)).map (⟨bytes.take 32, h⟩ :: ·)
      else none

/-- The words of a list of bytes, when it is a whole number of them. -/
def toWords (bytes : List UInt8) : Option (List Word) := splitWords (bytes.length / 32) bytes

@[simp] theorem bytesOf_cons (w : Word) (ws : List Word) :
    bytesOf (w :: ws) = w.val ++ bytesOf ws :=
  rfl

@[simp] theorem length_bytesOf (ws : List Word) : (bytesOf ws).length = 32 * ws.length := by
  induction ws with
  | nil => rfl
  | cons w ws ih =>
    rw [bytesOf_cons, length_append, w.property, ih, length_cons]
    omega

theorem take_bytesOf_cons (w : Word) (ws : List Word) : (bytesOf (w :: ws)).take 32 = w.val := by
  rw [bytesOf_cons, take_append_of_le_length w.property.ge, take_of_length_le w.property.le]

theorem drop_bytesOf_cons (w : Word) (ws : List Word) :
    (bytesOf (w :: ws)).drop 32 = bytesOf ws := by
  rw [bytesOf_cons, drop_append_of_le_length w.property.ge,
    drop_of_length_le w.property.le, nil_append]

theorem splitWords_bytesOf (ws : List Word) : splitWords ws.length (bytesOf ws) = some ws := by
  induction ws with
  | nil => rfl
  | cons w ws ih =>
    have hlen : ((bytesOf (w :: ws)).take 32).length = 32 := by
      rw [take_bytesOf_cons, w.property]
    rw [length_cons, splitWords, dif_pos hlen, drop_bytesOf_cons, ih, Option.map_some]
    congr
    exact take_bytesOf_cons w ws

theorem bytesOf_of_splitWords {n : Nat} {bytes : List UInt8} {ws : List Word}
    (h : splitWords n bytes = some ws) : bytes = bytesOf ws := by
  induction n generalizing bytes ws with
  | zero =>
    rw [splitWords, Option.ite_none_right_eq_some] at h
    obtain ⟨rfl, hws⟩ := h
    obtain rfl := Option.some.inj hws
    rfl
  | succ n ih =>
    rw [splitWords] at h
    split at h
    · obtain ⟨rest, hrest, rfl⟩ := Option.map_eq_some_iff.mp h
      rw [bytesOf_cons, ← ih hrest, take_append_drop]
    · cases h

/-- Splitting into words undoes writing them out. -/
theorem toWords_eq_some {bytes : List UInt8} {ws : List Word} :
    toWords bytes = some ws ↔ bytes = bytesOf ws := by
  constructor
  · exact bytesOf_of_splitWords
  · rintro rfl
    rw [toWords, length_bytesOf, Nat.mul_div_cancel_left _ (by decide), splitWords_bytesOf]

@[simp] theorem toWords_bytesOf (ws : List Word) : toWords (bytesOf ws) = some ws :=
  toWords_eq_some.mpr rfl

/-! ## Topics -/

def topicWord (text : String) : Option Word :=
  match spelled text with
  | some bytes => if h : bytes.length = 32 then some ⟨bytes, h⟩ else none
  | none => none

theorem topicWord_eq_some {text : String} {w : Word} :
    topicWord text = some w ↔ spelled text = some w.val := by
  unfold topicWord
  constructor
  · intro h
    split at h
    · rename_i bytes hbytes
      split at h
      · obtain rfl := Option.some.inj h
        exact hbytes
      · cases h
    · cases h
  · intro h
    rw [h]
    exact dif_pos w.property

/-- The elementary type of a topic, unless it holds a hash. -/
def AbiType.topicLeaf : AbiType → Option Leaf
  | .leaf l => some l
  | .array _ _ => none
  | .tuple _ => none
  | .bytes => none
  | .string => none
  | .slice _ => none

/-- A topic that is valid at the type of its parameter. -/
def AbiType.validTopic (t : AbiType) (w : Word) : Bool :=
  match t.topicLeaf with
  | some l => l.valid w
  | none => true

def decodeTopics : List AbiType → List (Option String) → Option (List Word)
  | [], [] => some []
  | t :: ts, some text :: rest => do
      let w ← topicWord text
      let ws ← decodeTopics ts rest
      if t.validTopic w then some (w :: ws) else none
  | _, _ => none

/-! ## Logs -/

namespace Event

variable (ev : Event)

/-- The topics of the parameters: the first topic of a log names the event, unless
the event is anonymous. -/
def paramTopics (topics : List (Option String)) : Option (List (Option String)) :=
  match ev.anonymous, topics with
  | true, topics => some topics
  | false, some _ :: rest => some rest
  | false, _ => none

def decodeData (data : String) : Option (List Value) := do
  let bytes ← spelled data
  let ws ← toWords bytes
  let (vs, rest) ← decodeAll ev.nonIndexed ws
  if rest = [] ∧ allStatic ev.nonIndexed = true then some vs else none

/-- What a log says under the declaration: the words of its parameter topics and
the values in its data. -/
def decodeLog (topics : List (Option String)) (data : String) :
    Option (List Word × List Value) := do
  let params ← ev.paramTopics topics
  let ws ← decodeTopics ev.indexed params
  let vs ← ev.decodeData data
  return (ws, vs)

/-- The components of the parameters in the topics, with their elementary types. -/
def topicComponents (ws : List Word) : List (Option Leaf × Word) :=
  (ev.indexed.map AbiType.topicLeaf).zip ws

def dataComponents (vs : List Value) : List (Option Leaf × Word) :=
  ((leavesOf ev.nonIndexed).map some).zip (wordsOf vs)

theorem decodeData_eq_some {data : String} {vs : List Value} (h : ev.decodeData data = some vs) :
    spelled data = some (bytesOf (wordsOf vs)) ∧ Fits (leavesOf ev.nonIndexed) (wordsOf vs) ∧
      allStatic ev.nonIndexed = true := by
  simp only [decodeData, Option.bind_eq_bind, Option.bind_eq_some_iff, Prod.exists,
    Option.ite_none_right_eq_some, Option.some.injEq] at h
  obtain ⟨bytes, hbytes, ws, hws, vs', rest, hdec, ⟨rfl, hstatic⟩, rfl⟩ := h
  obtain ⟨hwords, hfits⟩ := decodeAll_reads _ _ _ _ hdec
  rw [append_nil] at hwords
  rw [toWords_eq_some, hwords] at hws
  exact ⟨by rw [hbytes, hws], hfits, hstatic⟩

theorem decodeData_of_fits {data : String} {ws : List Word}
    (hdata : spelled data = some (bytesOf ws))
    (hfits : Fits (leavesOf ev.nonIndexed) ws) (hstatic : allStatic ev.nonIndexed = true) :
    ∃ vs, ev.decodeData data = some vs ∧ wordsOf vs = ws := by
  obtain ⟨vs, hvs, hws⟩ := decodeAll_accepts _ hstatic ws [] hfits
  rw [append_nil] at hvs
  refine ⟨vs, ?_, hws⟩
  simp [decodeData, hdata, hvs, hstatic]

end Event

end Abi
