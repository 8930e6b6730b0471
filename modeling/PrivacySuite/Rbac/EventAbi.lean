import PrivacySuite.Abi.Events

/-!
# What an ABI says about a log

The lookups of `internal/rbac/event_filter.go` that `internal/explorer/redactor.go`
has copies of: the event a first topic names, whether its data can hide addresses in
a dynamic value, and the address in a zero-padded topic.
-/

namespace PrivacySuite.Rbac

open Go Abi

/-- The address a topic holds in the zero-padded form, lower case. -/
def paddedAddress (topic : String) : Option String :=
  if byteLen (toLower topic) = 66 ∧ hasPrefix (toLower topic) "0x" ∧
      (((toLower topic).toList.drop 2).take 24).all (· == '0') then
    some ("0x" ++ String.ofList ((toLower topic).toList.drop 26))
  else none

def findEventByTopic0 (pkg : Package) (contractABI topic0 : String) : Option Event :=
  (pkg.json contractABI).bind (·.find? fun ev => toLower ev.id == toLower topic0)

mutual

def isDynamicABIType : AbiType → Bool
  | .string => true
  | .bytes => true
  | .slice _ => true
  | .array elem _ => isDynamicABIType elem
  | .tuple elems => anyDynamicABIType elems
  | .leaf _ => false

def anyDynamicABIType : List AbiType → Bool
  | [] => false
  | t :: rest => isDynamicABIType t || anyDynamicABIType rest

end

def eventHasDynamicNonIndexedParam (pkg : Package) (contractABI topic0 : String) : Bool :=
  if contractABI = "" ∨ topic0 = "" then false
  else
    match findEventByTopic0 pkg contractABI topic0 with
    | some ev => ev.nonIndexed.any isDynamicABIType
    | none => false

end PrivacySuite.Rbac
