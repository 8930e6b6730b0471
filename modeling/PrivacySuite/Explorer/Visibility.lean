import PrivacySuite.Go.Sha256
import PrivacySuite.Go.Strings

/-!
# Visibility of an address

`internal/explorer/visibility.go` and the rendering helpers of `redactor.go`: the
level a viewer has on an address, the reason for it, and the text an address is
rendered as. A level read from a map that has no entry is `none`.
-/

namespace PrivacySuite.Explorer

open Go

inductive VisibilityLevel where
  | full
  | pseudonymous
  | redacted
  | hidden
  deriving DecidableEq, Repr

inductive VisibilityReason where
  | ownAddress
  | publicAddress
  | noAccess
  | rbacGroupMember
  | participantOverride
  | visibleToGrant
  deriving DecidableEq, Repr

/-- `AddressVisibility`, with the fields the redactors read. -/
structure AddressVisibility where
  level : VisibilityLevel
  reason : VisibilityReason
  deriving DecidableEq, Repr

abbrev DetailedMap := String → Option AddressVisibility

/-- `visibilityMapFromDetailed`, read at one key. -/
def levelOf (detailed : DetailedMap) (key : String) : Option VisibilityLevel :=
  (detailed key).map (·.level)

def isNonIdentifiable (level : Option VisibilityLevel) : Bool :=
  level == some .hidden || level == some .redacted

def isZeroEVMAddress (addr : String) : Bool :=
  byteLen (trimPrefix (toLower addr) "0x") == 40 &&
    (trimPrefix (toLower addr) "0x").toList.all (· == '0')

/-- The letter of one byte of the digest. -/
def pseudonymLetter (b : UInt8) : Char := Char.ofNat (0x41 + (b &&& 0x0f).toNat)

def generatePseudonym (address : String) (key : List UInt8) : String :=
  if byteLen (toLower (trimPrefix (toLower address) "0x")) < 4 then "Address-Unknown"
  else
    "Address-" ++ String.ofList
      (((hmacSha256 key (toLower (trimPrefix (toLower address) "0x")).toUTF8.toList).take 4).map
        pseudonymLetter)

def privateText : String := "[PRIVATE]"

def applyRedaction (pseudonymKey : List UInt8) (address : String) :
    Option VisibilityLevel → String
  | some .full => address
  | some .pseudonymous => generatePseudonym address pseudonymKey
  | some .redacted => privateText
  | some .hidden => privateText
  | none => privateText

/-! ## `AddressMetadata` -/

/-- The reasons a row gives for the addresses it shows, by lower-case address. -/
abbrev Metadata := List (String × VisibilityReason)

/-- `m[key] = reason`. -/
def Metadata.set (m : Metadata) (key : String) (reason : VisibilityReason) : Metadata :=
  (key, reason) :: m.filter (·.1 ≠ key)

/-- What the reason of an address depends on beside its level: whether the viewer
participates in the row, which addresses are parties of a parent transaction of
theirs, and whether the sender listed them. -/
structure RowOverrides where
  viewerIsParticipant : Bool
  parentParty : String → Bool := fun _ => false
  txVisibleToViewer : Bool

/-- The reason `setMeta` writes for an address, if any. -/
def metaReason (detailed : DetailedMap) (overrides : RowOverrides) (key : String)
    (baseLevel : Option VisibilityLevel) : Option VisibilityReason :=
  if overrides.viewerIsParticipant ∧ isNonIdentifiable baseLevel then some .participantOverride
  else if overrides.parentParty key ∧ isNonIdentifiable baseLevel then some .participantOverride
  else if overrides.txVisibleToViewer ∧ isNonIdentifiable baseLevel then some .visibleToGrant
  else (detailed key).map (·.reason)

def setMeta (detailed : DetailedMap) (overrides : RowOverrides) (addr : String)
    (baseLevel : Option VisibilityLevel) (m : Metadata) : Metadata :=
  match metaReason detailed overrides (toLower addr) baseLevel with
  | some reason => m.set (toLower addr) reason
  | none => m

end PrivacySuite.Explorer
