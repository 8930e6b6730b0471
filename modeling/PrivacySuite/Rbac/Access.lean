import PrivacySuite.Rbac.CallShape
import PrivacySuite.Rbac.OrgContext

/-!
# Access decisions

`AccessController.CheckAccess` of `internal/rbac/access.go`, phase by phase. A
phase of the source returns `(result, handled, err)`; here it is a `Check`, whose
error side is the outcome the whole check ends with and whose value is what the
later phases use.

The permissions of a user in an organization come from the in-memory cache or
from the resolver. Both are functions of the controller, so that every statement
about `checkAccess` holds whatever they answer. `accounts/abi` of go-ethereum is
the parameter `CallAbi`.
-/

namespace PrivacySuite.Rbac

open Go Phase

/-! ## Outcomes -/

/-- What `CheckAccess` returns: a result, or an error. -/
abbrev Outcome := Except String AccessCheckResult

/-- A phase: the outcome that ends the check, or a value to go on with. -/
abbrev Check (α : Type) := Except Outcome α

def Outcome.Allows (o : Outcome) : Prop := ∃ r, o = .ok r ∧ r.allowed = true

instance Outcome.decidableAllows : (o : Outcome) → Decidable o.Allows
  | .error _ => isFalse fun ⟨_, h, _⟩ => nomatch h
  | .ok r =>
      if h : r.allowed = true then isTrue ⟨r, rfl, h⟩
      else isFalse fun ⟨_, hr, ha⟩ => h (Except.ok.inj hr ▸ ha)

def deny {α : Type} (reason : String) (authRequired : Bool := false) : Check α :=
  .error (.ok { allowed := false, reason := reason, authRequired := authRequired })

def denyIf (p : Prop) [Decidable p] (reason : String) (authRequired : Bool := false) :
    Check Unit :=
  onlyIf p (deny reason authRequired)

/-- Deny with the message of a failed test. -/
def orDeny {α : Type} (x : Except String α) (describe : String → String) : Check α :=
  match x with
  | .error e => deny (describe e)
  | .ok a => .ok a

def fail (message : String) (e : String) : Outcome := .error (message ++ e)

theorem not_allows_fail (message e : String) : ¬ (fail message e).Allows := by
  rintro ⟨r, hr, -⟩
  cases hr

theorem not_allows_of_deny {α : Type} {reason : String} {auth : Bool} {o : Outcome}
    (h : (deny reason auth : Check α) = .error o) : ¬ o.Allows := by
  unfold deny at h
  cases h
  rintro ⟨r, hr, hallowed⟩
  cases hr
  cases hallowed

/-! ## Collaborators -/

/-- A decoded call argument: an address (its `Hex()`), or a value of another Go
type. -/
inductive DecodedArg where
  | address (hex : String)
  | other (typeName : String)

/-- `accounts/abi` as parameter validation uses it: parse the ABI, find a method
by its selector, unpack the arguments. -/
structure CallAbi where
  decodeCall : (abiJSON : String) →
    Except String ((selector : List UInt8) →
      Except String ((arguments : List UInt8) → Except String (List DecodedArg)))

structure AccessController where
  store : Store
  registry : MethodRegistry
  abi : CallAbi
  /-- `cache.Get`. -/
  cacheGet : (userID orgID : String) → Option EffectivePermissions
  /-- `resolver.ResolvePermissionsCacheable`, without its cacheability verdict. -/
  resolvePermissions : (userID orgID : String) → Except String EffectivePermissions
  /-- The cached anonymous group row, while it is fresh. -/
  anonAccess : Option GroupAccess := none

/-! ## Parameter rules -/

def addressMatchesAny (hex : String) (userAddresses : List String) : Bool :=
  userAddresses.any fun ua => toLower ua == toLower hex

/-- One constraint of a function rule against the decoded arguments. -/
def validateParamRule (args : List DecodedArg) (userAddresses : List String) (pr : ParamRule) :
    Except String Unit :=
  if pr.index < 0 ∨ (args.length : Int) ≤ pr.index then
    .error ("parameter index " ++ toString pr.index ++ " out of range (function has " ++
      toString args.length ++ " parameters)")
  else if pr.mustBe = "self" then
    match args[pr.index.toNat]? with
    | some (.address hex) =>
        if addressMatchesAny hex userAddresses then .ok ()
        else .error ("parameter " ++ toString pr.index ++ ": address " ++ hex ++
          " is not a linked address")
    | some (.other typeName) =>
        .error ("parameter " ++ toString pr.index ++ ": expected address type, got " ++ typeName)
    | none => .error ""
  else .error ("unknown constraint type: " ++ pr.mustBe)

/-- `ValidateParamRules`, on a rule that has parameter constraints. -/
def validateParamRules (abi : CallAbi) (rule : FunctionRule) (calldata : List UInt8)
    (contractABI : String) (userAddresses : List String) : Except String Unit := do
  onlyIf (contractABI = "") (throw "contract ABI required for parameter constraints")
  onlyIf (userAddresses = []) (throw "ETH address linking required for parameter constraints")
  let methodById ← orFail (abi.decodeCall contractABI) ("failed to parse contract ABI: " ++ ·)
  onlyIf (calldata.length < 4)
    (throw "calldata too short: need at least 4 bytes for function selector")
  let unpack ← orFail (methodById (calldata.take 4)) ("failed to find method by selector: " ++ ·)
  onlyIf (equalFold ("0x" ++ encodeHex (calldata.take 4)) rule.selector = false)
    (throw ("calldata selector 0x" ++ encodeHex (calldata.take 4) ++
      " does not match rule selector " ++ rule.selector))
  let args ← orFail (unpack (calldata.drop 4)) ("failed to unpack arguments: " ++ ·)
  rule.paramRules.forM (validateParamRule args userAddresses)

/-! ## Proxy upgrades -/

/-- The selectors of the `upgradeTo` family: the implementation is the first
argument. -/
def upgradeToSelectors : List String := ["3659cfe6", "4f1ef286", "d784d426"]

/-- The selectors of the proxy-admin family: the implementation is the second
argument. -/
def proxyAdminSelectors : List String := ["99a88ec4", "9623609d"]

/-- Membership in `UpgradeSelectors`, which is also `IsUpgradeSelector` on a
selector that is lower-case hex without a prefix. -/
def isUpgradeSelector (selector : String) : Bool :=
  (upgradeToSelectors ++ proxyAdminSelectors).contains selector

/-- `UpgradeSelectors[selector]`. -/
def upgradeFunctionName (selector : String) : String :=
  ([("3659cfe6", "upgradeTo(address)"), ("4f1ef286", "upgradeToAndCall(address,bytes)"),
    ("d784d426", "setImplementation(address)"), ("99a88ec4", "upgrade(address,address)"),
    ("9623609d", "upgradeAndCall(address,address,bytes)")].lookup selector).getD ""

def extractImplementationAddress (selector : String) (calldata : List UInt8) :
    Except String String :=
  if upgradeToSelectors.contains selector then
    if calldata.length < 36 then
      .error ("calldata too short for " ++ upgradeFunctionName selector)
    else .ok ("0x" ++ encodeHex ((calldata.drop 16).take 20))
  else if proxyAdminSelectors.contains selector then
    if calldata.length < 68 then
      .error ("calldata too short for " ++ upgradeFunctionName selector)
    else .ok ("0x" ++ encodeHex ((calldata.drop 48).take 20))
  else .error ("unknown upgrade selector: " ++ selector)

/-- `none` when the upgrade is allowed, the reason when not. -/
def validateUpgrade (store : Store) (orgID : String) (calldata : List UInt8) :
    Except String (Option String) :=
  if calldata.length < 4 then .ok none
  else if isUpgradeSelector (encodeHex (calldata.take 4)) = false then .ok none
  else
    match extractImplementationAddress (encodeHex (calldata.take 4)) calldata with
    | .error e => .ok (some ("failed to extract implementation address: " ++ e))
    | .ok newImpl => do
        let owned ← orFail (store.isAddressOwnedByOrg newImpl orgID)
          ("failed to check implementation ownership: " ++ ·)
        return if owned then none
          else some ("new implementation " ++ newImpl ++ " is not owned by the organization")

/-! ## Phases before an organization is chosen -/

section Phases

variable (c : AccessController) (req : AccessCheckRequest)

def checkGlobalBlocks : Check Unit :=
  if isMethodBlocked req.method then
    deny ("method " ++ req.method ++ " is globally blocked for security reasons")
  else if c.registry.isForwardableMethod (canonicalizeMethod req.method) = false then
    deny ("method " ++ req.method ++ " is not supported")
  else
    match req.methodsToJudge.findSome? (detectMulticall · req.params) with
    | some reason => deny reason
    | none => .ok ()

def stateOverrideDeniedReason : String := "state, code and block overrides are not permitted"

def checkStateOverrides : Check Unit :=
  if [req.method, req.effectiveMethod].any
      (fun m => (detectStateOverride c.registry m req.params).isSome) then
    deny stateOverrideDeniedReason
  else .ok ()

def anonymousGroupID : String := "00000000-0000-0000-0000-000000000002"

def getAnonymousAccessCached : Except String (Option GroupAccess) :=
  match c.anonAccess with
  | some access => .ok (some access)
  | none => c.store.getGroupAccess anonymousGroupID

def checkAnonymousAccess : Check Outcome := do
  denyIf (req.historicalStateQuery.isSome = true) (req.historicalStateQuery.getD "")
  denyIf (isCatalogMethod (canonicalizeMethod req.method) = false)
    "authentication required for this operation" true
  let anonAccess ← orFail (getAnonymousAccessCached c)
    (fail "failed to load anonymous group access: ")
  denyIf (anonAccess = none) "anonymous access not configured" true
  denyIf (((anonAccess.map (·.allowedMethods)).getD []).any
      (fun m => toLower m == trimLower req.method) = false)
    "authentication required for this operation" true
  denyIf (req.anyMethodToJudge (isContractDeployment · req.params) = true)
    "deployment requires authentication" true
  denyIf (req.anyMethodToJudge isStorageReadMethod = true)
    "storage reads require authentication" true
  return .ok { allowed := true }

/-- Existence, ban, KYC. -/
def resolveAndValidateUser : Check User := do
  let user ← orFail (c.store.getUserByExternalID req.userExternalID) (fail "failed to get user: ")
  match user with
  | none => deny "access denied"
  | some user =>
      if user.banned then deny "user is banned"
      else if user.kyc = false ∧ isOrgFreeMetadataMethod req.method = false then
        deny "KYC verification required"
      else return user

/-- Org admins, in any organization, are exempt; a store without the admin lookup lets the
query through. -/
def checkHistoricalStateQuery (user : User) : Check Unit :=
  match req.historicalStateQuery with
  | none => .ok ()
  | some reason =>
      match c.store.isOrgAdmin with
      | none => .ok ()
      | some isOrgAdmin => do
          let isAdmin ← orFail (isOrgAdmin user.id)
            (fail "failed to check admin status for historical query: ")
          if isAdmin then .ok () else deny reason

/-! ## Choosing the organization -/

def callerOrgForDenial (user : User) : String :=
  match c.store.listActiveUserMembershipsWithDetails user.id with
  | .error _ => ""
  | .ok memberships =>
      let orgIDs := ((memberships.filterMap fun m => m.group.map (·.orgID)).filter
        (· != "")).dedup
      if req.orgID ≠ "" ∧ orgIDs.contains req.orgID then req.orgID
      else
        match orgIDs with
        | [only] => only
        | _ => ""

/-- The organization a lookup by id or slug returned, when the caller is a
member of it. -/
def memberOrg (userOrgIDs : List String) (org : Option Organization) : Check Organization :=
  match org with
  | none => deny "access denied"
  | some org => if userOrgIDs.contains org.id then .ok org else deny "access denied"

/-- The organization to evaluate permissions in: the explicit id, the explicit
slug, the owner of the target, or the caller's only organization. -/
def selectOrg (oc : OrgContext c.store) : Check Organization :=
  if req.orgID ≠ "" then do
    let org ← orFail (c.store.getOrganization req.orgID)
      (fail "failed to get organization by ID: ")
    memberOrg oc.userOrgIDs org
  else if req.orgSlug ≠ "" ∧ req.orgSlug ≠ "default" then do
    let org ← orFail (c.store.getOrganizationBySlug req.orgSlug)
      (fail "failed to get organization by slug: ")
    memberOrg oc.userOrgIDs org
  else
    match oc.org with
    | some org => .ok org
    | none =>
        match oc.userOrgIDs with
        | [singleOrgID] => do
            let org ← orFail (c.store.getOrganization singleOrgID)
              (fail "failed to get organization: ")
            match org with
            | none => deny "access denied"
            | some org => .ok org
        | _ => deny "multiple organizations: use /rpc/:org_id to specify which org"

def resolveOrgContextForRequest (scope : Option String) (user : User) :
    Check (Organization × OrgContext c.store) :=
  match newOrgContext c.store scope user (trimLower req.targetAddress) with
  | .error _ =>
      .error (.ok { allowed := false, reason := errContractAccessDenied,
                    orgID := callerOrgForDenial c req user, userID := user.id })
  | .ok oc => do
      denyIf (oc.userOrgIDs = []) "user has no organization membership"
      let org ← selectOrg c req oc
      return (org, oc)

/-- The permissions a user holds in an organization, from the cache or freshly
resolved. -/
def permissionsIn (bypassCache : Bool) (userID orgID : String) :
    Except String EffectivePermissions :=
  match if bypassCache then none else c.cacheGet userID orgID with
  | some perms => .ok perms
  | none => c.resolvePermissions userID orgID

def resolvePermissionsForRequest (user : User) (org : Organization) :
    Check EffectivePermissions :=
  orFail (permissionsIn c req.bypassCache user.id org.id) (fail "failed to resolve permissions: ")

/-! ## Phases with an organization -/

/-- The final allow, as every allowing phase builds it. -/
def allowResult (user : User) (org : Organization) (perms : EffectivePermissions) : Outcome :=
  .ok { allowed := true, orgID := org.id, userID := user.id, rpcAPIKey := perms.rpcAPIKey,
        claims := perms.collectAllClaims }

def checkMethodAllowed (perms : EffectivePermissions) : Check Unit :=
  if perms.hasMethod c.registry req.method then .ok ()
  else deny ("method " ++ req.method ++ " not allowed")

/-- The owner of a filter address, looked up when there is no entry for it. -/
def getLogsOwner (perms : EffectivePermissions) (addr : String) : Except String (Option String) :=
  if perms.isContractRegistered addr then .ok none
  else
    orFail ((c.store.getContractOwnerOrgID addr).map some)
      ("eth_getLogs: failed to check contract owner: " ++ ·)

/-- The per-address half of `validateGetLogsWithOrgContext`. -/
def validateGetLogsAddress (perms : EffectivePermissions) (addr : String) :
    Except String Unit := do
  let owner ← getLogsOwner c perms addr
  -- an unowned address without an entry is private, unless it is a precompile
  if owner = some "" then
    if isPrecompileAddress addr then .ok ()
    else .error ("eth_getLogs: " ++ errContractAccessDenied)
  else
    orFail (OrgContext.checkDefaultClaimsAllowed c.store addr (perms.isContractRegistered addr))
      (fun _ => "eth_getLogs: " ++ errContractAccessDenied)
    onlyIf ((perms.getContractAccess addr).isSome = false)
      (throw ("eth_getLogs: " ++ errContractAccessDenied))

def validateGetLogsWithOrgContext (perms : EffectivePermissions) (oc : OrgContext c.store) :
    Except String Unit := do
  onlyIf (req.params = []) (throw "eth_getLogs: missing filter parameter")
  match firstObject req.params with
  | none => throw "eth_getLogs: invalid filter parameter type"
  | some filterObj =>
      onlyIf (extractGetLogsAddresses filterObj = [])
        (throw "eth_getLogs: address filter required for security")
      orFail (oc.checkMultiAddressesInScope (extractGetLogsAddresses filterObj))
        ("eth_getLogs: " ++ ·)
      (extractGetLogsAddresses filterObj).forM (validateGetLogsAddress c perms)

/-- Always terminal for `eth_getLogs`. -/
def checkEthGetLogsAccess (user : User) (org : Organization) (oc : OrgContext c.store)
    (perms : EffectivePermissions) : Check Unit :=
  if req.effectiveMethod = "eth_getLogs" then
    match validateGetLogsWithOrgContext c req perms oc with
    | .error e => deny e
    | .ok () => .error (allowResult user org perms)
  else .ok ()

/-- Always terminal. -/
def validateDeploymentWithoutTarget (user : User) (org : Organization)
    (perms : EffectivePermissions) : Check Outcome := do
  denyIf (hasClaim perms.claims .deploy = false) "access denied"
  denyIf (classifyCallShape req.params = .malformed) "malformed transaction object"
  denyIf (extractDeploymentBytecode req.effectiveMethod req.params = "")
    "contract deployment missing bytecode"
  return allowResult user org perms

/-- The owner lookup of a carve-out: allow an unowned address, else fall through
with the memo extended. -/
def allowIfUnowned (oc : OrgContext c.store) (addr : String) (onUnowned : Check Unit) :
    Check (OrgContext c.store) := do
  let (owner, oc) ← orFail (oc.ownerOrgID addr) (fail "failed to check address ownership: ")
  onlyIf (owner = "") onUnowned
  return oc

def classifyValueTransferCarveout (user : User) (org : Organization) (oc : OrgContext c.store)
    (perms : EffectivePermissions) (requiredClaim : Option Claim) : Check (OrgContext c.store) :=
  if (req.effectiveMethod = "eth_sendTransaction" ∨ req.effectiveMethod = "eth_estimateGas") ∧
      req.targetAddress ≠ "" ∧ isValueTransferParams req.params = true ∧
      perms.isContractRegistered (toLower req.targetAddress) = false then
    allowIfUnowned c oc (toLower req.targetAddress) <|
      match requiredClaim with
      | some claim =>
          if hasClaim perms.claims claim then .error (allowResult user org perms)
          else deny "access denied"
      | none => .error (allowResult user org perms)
  else .ok oc

def classifyBasicAddressQueryCarveout (user : User) (org : Organization)
    (oc : OrgContext c.store) (perms : EffectivePermissions) : Check (OrgContext c.store) :=
  if req.targetAddress ≠ "" ∧ isBasicAddressQuery req.effectiveMethod = true ∧
      req.anyMethodToJudge isStorageReadMethod = false ∧
      perms.isContractRegistered (toLower req.targetAddress) = false then
    allowIfUnowned c oc (toLower req.targetAddress) (.error (allowResult user org perms))
  else .ok oc

/-! ## The contract gate -/

/-- Access to the target as it is worked out: the access, and whether it counts
as explicit. -/
structure TargetAccess where
  access : Option ContractAccess
  hasExplicitAccess : Bool

/-- First step of the gate: an explicit entry, or default access that is dropped
when another organization owns the target. The owner is returned when it was
looked up. -/
def lookupAccess (oc : OrgContext c.store) (perms : EffectivePermissions) (addr : String) :
    Check (TargetAccess × Option String × OrgContext c.store) :=
  if (perms.getContractAccess addr).isSome = true ∧ perms.isContractRegistered addr = false then do
    let (owner, oc) ← orFail (oc.ownerOrgID addr) (fail "failed to check address ownership: ")
    if owner ≠ "" ∧ oc.userOrgIDs.contains owner = false then
      return (⟨none, false⟩, some owner, oc)
    else return (⟨perms.getContractAccess addr, false⟩, some owner, oc)
  else
    .ok (⟨perms.getContractAccess addr, perms.isContractRegistered addr⟩, none, oc)

/-- The owner of the target, looked up unless the first step did. -/
def ownerOnce (oc : OrgContext c.store) (addr : String) (ownerFetched : Option String) :
    Check String :=
  match ownerFetched with
  | some owner => .ok owner
  | none => orFail ((oc.ownerOrgID addr).map (·.1)) (fail "failed to check address ownership: ")

/-- Second step: a planned deployment address of one of the caller's
organizations is open to holders of the deploy or admin claim. -/
def addPreregistered (oc : OrgContext c.store) (perms : EffectivePermissions) (addr : String)
    (ta : TargetAccess) (ownerFetched : Option String) : Check TargetAccess :=
  if ta.access.isSome then .ok ta
  else do
    let owner ← ownerOnce c oc addr ownerFetched
    if owner ≠ "" ∧ oc.userOrgIDs.contains owner = true then
      let preregistered ← orFail (c.store.isAddressPreregistered owner addr)
        (fail "failed to check preregistered address: ")
      if preregistered = true ∧
          (hasClaim perms.claims .deploy = true ∨ hasClaim perms.claims .admin = true) then
        return ⟨some { claims := [.deploy] }, true⟩
      else return ta
    else return ta

/-- A claim is required and the access does not carry it. -/
def lacksClaim (requiredClaim : Option Claim) (access : ContractAccess) : Bool :=
  requiredClaim.any fun claim => !hasClaim access.claims claim

/-- Whether the deployer of the target is consulted: no access yet, or access
without the required claim. -/
def needsDeployer (requiredClaim : Option Claim) (access : Option ContractAccess) : Bool :=
  access.all (lacksClaim requiredClaim)

/-- Third step: the deployer of a contract always reaches it. -/
def addDeployer (user : User) (addr : String) (requiredClaim : Option Claim)
    (ta : TargetAccess) : Check TargetAccess :=
  if needsDeployer requiredClaim ta.access then do
    let deployerID ← orFail (c.store.getContractDeployerByAddress addr)
      (fail "failed to check contract deployer: ")
    if deployerID = some user.id then
      match ta.access with
      | none => return ⟨some {}, true⟩
      | some access =>
          return ⟨some { claims := access.claims.dedup, functions := access.functions }, true⟩
    else return ta
  else .ok ta

/-- Without the admin claim, well-known slots only. -/
def validateStorageReadAccess (access : ContractAccess) : Check Unit :=
  if req.anyMethodToJudge isStorageReadMethod = false ∨ hasClaim access.claims .admin = true then
    .ok ()
  else
    (req.methodsToJudge.filter isStorageReadMethod).forM fun method =>
      match requestedStorageKeys method req.params with
      | none => deny errContractAccessDenied
      | some keys =>
          if keys.all isWellKnownStorageSlot then .ok () else deny errContractAccessDenied

def accessHasFunctionSelector (access : ContractAccess) (selector : String) : Bool :=
  match access.functions with
  | none => true
  | some rules => rules.any fun rule => equalFold rule.selector selector

def accessGetFunctionRule (access : ContractAccess) (selector : String) : Option FunctionRule :=
  (access.functions.getD []).find? fun rule => equalFold rule.selector selector

/-- The parameter-rule half of `validateFunctionSelector`. -/
def validateSelectorParams (org : Organization) (rule : FunctionRule) : Check Unit :=
  match req.calldata.orElse fun _ => extractCalldata req.effectiveMethod req.params with
  | none => deny "calldata required for parameter constraint validation"
  | some calldata => do
      let userAddresses ← orFail (c.store.getLinkedEthAddresses req.userExternalID)
        (fail "failed to get linked ETH addresses: ")
      let contract ← orFail (c.store.getContractByAddress org.id (toLower req.targetAddress))
        (fail "failed to get contract: ")
      orDeny (validateParamRules c.abi rule calldata ((contract.map (·.abi)).getD "")
          userAddresses)
        ("parameter constraint violation on " ++ req.targetAddress ++ ": " ++ ·)

def validateFunctionSelector (org : Organization) (access : ContractAccess) : Check Unit :=
  if req.functionSelector ≠ "" then
    if accessHasFunctionSelector access req.functionSelector = false then
      deny ("function " ++ req.functionSelector ++ " not allowed on contract " ++
        req.targetAddress)
    else
      match accessGetFunctionRule access req.functionSelector with
      | none => .ok ()
      | some rule => if rule.paramRules = [] then .ok () else validateSelectorParams c req org rule
  else if (req.effectiveMethod = "eth_call" ∨ req.effectiveMethod = "eth_estimateGas" ∨
      req.effectiveMethod = "eth_sendTransaction") ∧ access.functions.isSome = true then
    deny ("function selector required: contract " ++ req.targetAddress ++
      " has function-level restrictions")
  else .ok ()

def validateProxyUpgrade (org : Organization) (access : ContractAccess) : Check Unit :=
  match extractCalldata req.effectiveMethod req.params with
  | none => .ok ()
  | some [] => .ok ()
  | some calldata => do
      denyIf (4 ≤ calldata.length ∧ isUpgradeSelector (encodeHex (calldata.take 4)) = true ∧
        hasClaim access.claims .upgrade = false) errContractAccessDenied
      let verdict ← orFail (validateUpgrade c.store org.id calldata)
        (fail "failed to validate upgrade: ")
      denyIf (verdict.isSome = true) ("proxy upgrade denied: " ++ verdict.getD "")

/-- The gates behind the contract gate: everything that can only still deny. -/
def checkTargetAccess (org : Organization) (requiredClaim : Option Claim) (ta : TargetAccess) :
    Check Unit :=
  match ta.access with
  | none => deny errContractAccessDenied
  | some access => do
      orDeny (OrgContext.checkDefaultClaimsAllowed c.store (toLower req.targetAddress)
        ta.hasExplicitAccess) id
      denyIf (lacksClaim requiredClaim access = true) errContractAccessDenied
      validateStorageReadAccess req access
      validateFunctionSelector c req org access
      onlyIf (req.effectiveMethod = "eth_sendTransaction") (validateProxyUpgrade c req org access)

def validateContractAccess (user : User) (org : Organization) (oc : OrgContext c.store)
    (perms : EffectivePermissions) (requiredClaim : Option Claim) : Check Unit := do
  let (ta, owner, oc) ← lookupAccess c oc perms (toLower req.targetAddress)
  let ta ← addPreregistered c oc perms (toLower req.targetAddress) ta owner
  let ta ← addDeployer c user (toLower req.targetAddress) requiredClaim ta
  checkTargetAccess c req org requiredClaim ta

def checkAdditionalRequiredClaims (perms : EffectivePermissions) : Check Unit :=
  if req.requiredClaims.all (fun claim =>
      perms.contractAccess.any (fun entry => hasClaim entry.2.claims claim) ||
        hasClaim perms.claims claim) then .ok ()
  else deny "access denied"

/-- The last phases of `checkWithResolvedOrg`, for a request that is no
deployment: the carve-outs, the contract gate, the additional claims. -/
def checkTargetedRequest (user : User) (org : Organization) (oc : OrgContext c.store)
    (perms : EffectivePermissions) (requiredClaim : Option Claim) : Check Outcome := do
  let oc ← classifyValueTransferCarveout c req user org oc perms requiredClaim
  let oc ← classifyBasicAddressQueryCarveout c req user org oc perms
  onlyIf (req.targetAddress ≠ "") (validateContractAccess c req user org oc perms requiredClaim)
  checkAdditionalRequiredClaims req perms
  return allowResult user org perms

def checkWithResolvedOrg (user : User) (org : Organization) (oc : OrgContext c.store) :
    Check Outcome := do
  let perms ← resolvePermissionsForRequest c req user org
  checkMethodAllowed c req perms
  checkEthGetLogsAccess c req user org oc perms
  denyIf (req.targetAddress = "" ∧ req.anyMethodToJudge isStorageReadMethod = true)
    errContractAccessDenied
  if classifyOperation req.effectiveMethod req.params = some .deploy then
    validateDeploymentWithoutTarget req user org perms
  else
    checkTargetedRequest c req user org oc perms (classifyOperation req.effectiveMethod req.params)

/-- The attribution every outcome gets once an organization is resolved. -/
def stampOutcome (user : User) (org : Organization) : Outcome → Outcome
  | .error e => .error e
  | .ok r => .ok { r with
      orgID := if r.orgID = "" then org.id else r.orgID
      userID := if r.userID = "" then user.id else r.userID }

/-- `scope` is the impersonation scope of the request context. -/
def checkAccess (scope : Option String) : Outcome := run do
  checkGlobalBlocks c req
  checkStateOverrides c req
  if req.userExternalID = "" then checkAnonymousAccess c req
  else
    let user ← resolveAndValidateUser c req
    checkHistoricalStateQuery c req user
    if isOrgFreeMetadataMethod req.method then
      return .ok { allowed := true, userID := user.id }
    else
      let (org, oc) ← resolveOrgContextForRequest c req scope user
      return stampOutcome user org (run (checkWithResolvedOrg c req user org oc))

end Phases

end PrivacySuite.Rbac
