import PrivacySuite.Go.Json

/-!
# RBAC data model

The records of `internal/rbac/models.go` that access decisions read, the store
they are read from, and the small predicates on resolved permissions. Fields no
modelled function looks at (names, notes, timestamps, metadata) are left out.

A Go map keyed by address is the list of its entries; `List.lookup` is the index
expression. A nil slice that means something other than an empty one
(`ContractAccess.Functions`) is an `Option`.
-/

namespace PrivacySuite.Rbac

open Go

/-! ## Claims and permissions -/

/-- The three operational claims, and any other string a row may hold. -/
inductive Claim where
  | admin
  | upgrade
  | deploy
  | other (name : String)
  deriving DecidableEq, Repr

/-- `ParamRule` constrains one ABI parameter of a call or an event. -/
structure ParamRule where
  index : Int
  mustBe : String
  deriving DecidableEq, Repr

/-- `FunctionRule` admits one selector, with optional parameter rules. -/
structure FunctionRule where
  selector : String
  paramRules : List ParamRule := []
  deriving DecidableEq, Repr

/-- `EventRule` admits one event signature, with optional parameter rules. -/
structure EventRule where
  topic0 : String
  paramRules : List ParamRule := []
  name : String := ""
  deriving DecidableEq, Repr

/-- Wildcard, or a (possibly empty) allowlist. -/
structure EventRulesField where
  wildcard : Bool := false
  rules : List EventRule := []
  deriving DecidableEq, Repr

/-- What a viewer may do on one contract. `functions = none` is the nil slice, every
function. -/
structure ContractAccess where
  claims : List Claim := []
  functions : Option (List FunctionRule) := none
  eventRules : Option EventRulesField := none
  deriving DecidableEq, Repr

/-- The permissions of one user in one organization. -/
structure EffectivePermissions where
  allowedMethods : List String := []
  contractAccess : List (String × ContractAccess) := []
  claims : List Claim := []
  rpcAPIKey : String := ""
  deriving DecidableEq, Repr

/-! ## Rows -/

structure Organization where
  id : String
  slug : String := ""
  deriving DecidableEq, Repr

structure Group where
  id : String
  orgID : String
  isOrgAdmin : Bool := false
  isSystem : Bool := false
  deriving DecidableEq, Repr

structure User where
  id : String
  externalID : String := ""
  kyc : Bool := false
  banned : Bool := false
  deriving DecidableEq, Repr

/-- `Membership`; `expired` is whether its time box has run out at the moment of
the request. -/
structure Membership where
  groupID : String
  expired : Bool := false
  deriving DecidableEq, Repr

/-- `MembershipWithDetails`; either part may be missing. -/
structure MembershipWithDetails where
  group : Option Group
  membership : Option Membership := none
  deriving DecidableEq, Repr

structure GroupAccess where
  allowedMethods : List String := []
  claims : List Claim := []
  deriving DecidableEq, Repr

structure Contract where
  id : String := ""
  orgID : String := ""
  abi : String := ""
  deriving DecidableEq, Repr

/-! ## The store

The read side of `rbac.Store`, for one fixed database content. A lookup that may
fail returns an `Except`; a nil pointer is `none`; the owner lookup answers the
empty string for an address no organization owns. -/

structure Store where
  getUserByExternalID : String → Except String (Option User)
  listActiveUserMembershipsWithDetails : String → Except String (List MembershipWithDetails)
  getOrganization : String → Except String (Option Organization)
  getOrganizationBySlug : String → Except String (Option Organization)
  getContractOwnerOrgID : String → Except String String
  isAddressPreregistered : (orgID address : String) → Except String Bool
  getContractDeployerByAddress : String → Except String (Option String)
  getGroupAccess : String → Except String (Option GroupAccess)
  getLinkedEthAddresses : String → Except String (List String)
  getContractByAddress : (orgID address : String) → Except String (Option Contract)
  isAddressOwnedByOrg : (address orgID : String) → Except String Bool
  /-- The optional `OrgAdminChecker` extension: `none` when the store lacks it. -/
  isOrgAdmin : Option (String → Except String Bool)

/-! ## Requests and results -/

/-- `calldata = none` is the nil slice. -/
structure AccessCheckRequest where
  userExternalID : String := ""
  orgSlug : String := ""
  orgID : String := ""
  method : String
  accessMethod : String := ""
  params : List Json := []
  targetAddress : String := ""
  functionSelector : String := ""
  calldata : Option (List UInt8) := none
  requiredClaims : List Claim := []
  bypassCache : Bool := false

namespace AccessCheckRequest

/-- The alias target when one is set. -/
def effectiveMethod (r : AccessCheckRequest) : String :=
  if r.accessMethod ≠ "" then r.accessMethod else r.method

/-- The alias target and the raw method, once each. -/
def methodsToJudge (r : AccessCheckRequest) : List String :=
  if r.effectiveMethod ≠ r.method then [r.effectiveMethod, r.method] else [r.method]

def anyMethodToJudge (r : AccessCheckRequest) (pred : String → Bool) : Bool :=
  r.methodsToJudge.any pred

end AccessCheckRequest

structure AccessCheckResult where
  allowed : Bool
  authRequired : Bool := false
  reason : String := ""
  orgID : String := ""
  userID : String := ""
  rpcAPIKey : String := ""
  claims : List Claim := []
  deriving DecidableEq, Repr

/-! ## Precompiles -/

/-- `precompile.PrecompileAddresses`. -/
def precompileAddresses : List String :=
  ["0x0000000000000000000000000000000000000001", "0x0000000000000000000000000000000000000002",
   "0x0000000000000000000000000000000000000003", "0x0000000000000000000000000000000000000004",
   "0x0000000000000000000000000000000000000005", "0x0000000000000000000000000000000000000006",
   "0x0000000000000000000000000000000000000007", "0x0000000000000000000000000000000000000008",
   "0x0000000000000000000000000000000000000009"]

/-- Lower case, without the prefix, zero-padded to forty bytes, with the prefix again. -/
def normalizeAddress (addr : String) : String :=
  let digits := toLower (trimPrefix addr "0x")
  "0x" ++ String.ofList (List.replicate (40 - byteLen digits) '0') ++ digits

/-- `precompile.IsPrecompileAddress`. -/
@[irreducible] def isPrecompileAddress (addr : String) : Bool :=
  precompileAddresses.contains (normalizeAddress addr)

/-! ## Permission lookups -/

def hasClaim (claims : List Claim) (target : Claim) : Bool := claims.contains target

namespace EffectivePermissions

/-- An explicit entry for the address. -/
def isContractRegistered (e : EffectivePermissions) (address : String) : Bool :=
  (e.contractAccess.lookup (toLower address)).isSome

/-- The explicit entry, or empty access on a precompile. -/
def getContractAccess (e : EffectivePermissions) (address : String) : Option ContractAccess :=
  match e.contractAccess.lookup (toLower address) with
  | some access => some access
  | none => if isPrecompileAddress (toLower address) then some {} else none

def hasContractClaim (e : EffectivePermissions) (address : String) (claim : Claim) : Bool :=
  match e.getContractAccess address with
  | some access => access.claims.contains claim
  | none => false

/-- The union of the default and the per-contract claims. -/
def collectAllClaims (e : EffectivePermissions) : List Claim :=
  (e.claims ++ e.contractAccess.flatMap (·.2.claims)).dedup

end EffectivePermissions

end PrivacySuite.Rbac
