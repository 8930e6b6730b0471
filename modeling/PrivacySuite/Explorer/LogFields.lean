import PrivacySuite.Explorer.Visibility
import PrivacySuite.Rbac.EventAbi

/-!
# Addresses inside a log

The field-level primitives of `internal/explorer/redactor.go` that the explorer and
the RPC log filter share: which addresses a log's topics and data embed
(`ExtractLogAddresses`), and the log with the private ones zeroed
(`RedactLogAddressFields`).
-/

namespace PrivacySuite.Explorer

open Go Abi

abbrev VisibilityMap := String → Option VisibilityLevel

/-! ## Topics -/

def extractTopicAddress (topic : String) : Option String := Rbac.paddedAddress topic

def zeroTopic : String := "0x" ++ String.ofList (List.replicate 64 '0')

def redactTopicAddress (addr : String) : Option VisibilityLevel → String
  | some .full => "0x" ++ String.ofList (List.replicate 24 '0') ++ toLower (trimPrefix addr "0x")
  | some .pseudonymous => zeroTopic
  | some .redacted => zeroTopic
  | some .hidden => zeroTopic
  | none => zeroTopic

def redactTopicField (visMap : VisibilityMap) (topic : String) : String :=
  match extractTopicAddress topic with
  | none => topic
  | some addr =>
      if visMap addr = some .full then topic else redactTopicAddress addr (visMap addr)

/-! ## The declaration of a log -/

/-- The event of the contract's ABI whose signature hash the first topic is. -/
def matchedEvent (pkg : Package) (contractABI : String) (topic0 : String) : Option Event :=
  if contractABI = "" then none else Rbac.findEventByTopic0 pkg contractABI topic0

def eventHasDynamicNonIndexedParam (pkg : Package) (contractABI topic0 : String) : Bool :=
  if topic0 = "" then false
  else
    match matchedEvent pkg contractABI topic0 with
    | some ev => ev.nonIndexed.any Rbac.isDynamicABIType
    | none => false

/-! ## Data -/

/-- An address as text: `strings.ToLower(common.BytesToAddress(slot[12:]).Hex())`. -/
def slotAddress (slot : List UInt8) : String := "0x" ++ encodeHex (slot.drop 12)

/-- The types of the non-indexed parameters and the bytes of the data, when both are
there: the scan takes the `i`-th parameter to be the `i`-th slot of the data. -/
def dataSlots (pkg : Package) (data contractABI : String) (topic0 : Option String) :
    Option (List AbiType × List UInt8) := do
  let topic ← topic0
  let ev ← matchedEvent pkg contractABI topic
  let bytes ← decodeHex (trimPrefix data "0x")
  if data = "" ∨ ev.nonIndexed = [] ∨ bytes.length < ev.nonIndexed.length * 32 then none
  else some (ev.nonIndexed, bytes)

def isAddressType : AbiType → Bool
  | .leaf .address => true
  | _ => false

/-- The slots that are scanned: `address` and `bytes32`. -/
def isScannedType : AbiType → Bool
  | .leaf .address => true
  | .leaf (.fixedBytes 32) => true
  | _ => false

def slotAddresses : List AbiType → List UInt8 → List String
  | [], _ => []
  | t :: ts, bytes =>
      if isAddressType t ∧ isAddressShape (bytes.take 32) then
        slotAddress (bytes.take 32) :: slotAddresses ts (bytes.drop 32)
      else slotAddresses ts (bytes.drop 32)

def extractDataAddresses (pkg : Package) (data contractABI : String) (topic0 : Option String) :
    List String :=
  match dataSlots pkg data contractABI topic0 with
  | some (types, bytes) => slotAddresses types bytes
  | none => []

def isMaskedSlot (visMap : VisibilityMap) (t : AbiType) (slot : List UInt8) : Bool :=
  isScannedType t && isAddressShape slot && visMap (slotAddress slot) != some .full

def maskSlots (visMap : VisibilityMap) : List AbiType → List UInt8 → List UInt8
  | [], bytes => bytes
  | t :: ts, bytes =>
      (if isMaskedSlot visMap t (bytes.take 32) then List.replicate 32 0 else bytes.take 32) ++
        maskSlots visMap ts (bytes.drop 32)

def masksSomeSlot (visMap : VisibilityMap) : List AbiType → List UInt8 → Bool
  | [], _ => false
  | t :: ts, bytes =>
      isMaskedSlot visMap t (bytes.take 32) || masksSomeSlot visMap ts (bytes.drop 32)

/-- Data that loses nothing is returned as it was written. -/
def redactLogData (pkg : Package) (data contractABI : String) (topic0 : Option String)
    (visMap : VisibilityMap) : String :=
  match dataSlots pkg data contractABI topic0 with
  | some (types, bytes) =>
      if masksSomeSlot visMap types bytes then
        (if hasPrefix data "0x" ∨ hasPrefix data "0X" then "0x" else "") ++
          encodeHex (maskSlots visMap types bytes)
      else data
  | none => data

/-! ## The two primitives -/

def extractLogAddresses (pkg : Package) (topics : List (Option String)) (data contractABI : String)
    (topic0 : Option String) : List String :=
  (topics.filterMap (·.bind extractTopicAddress) ++
    extractDataAddresses pkg data contractABI topic0).eraseDups

def redactLogAddressFields (pkg : Package) (topics : List (Option String))
    (data contractABI : String) (topic0 : Option String) (visMap : VisibilityMap) :
    List (Option String) × String :=
  (topics.map (·.map (redactTopicField visMap)), redactLogData pkg data contractABI topic0 visMap)

end PrivacySuite.Explorer
