import PrivacySuite.Go.Phase
import PrivacySuite.Rbac.AdminStore
import PrivacySuite.Rbac.Methods

/-!
# The administration of groups and memberships

The mutating handlers of `internal/server/admin_rbac_group.go` and
`internal/server/admin_rbac_user.go` for groups, their access rows, memberships and the
deletion of users, behind `adminAuthMiddleware` and `orgScopingMiddleware`.

A handler is a chain of gates and then a write. The database answers every statement;
what it may refuse is a row that breaks a constraint. Caches and audit rows are left out,
and so are the bodies of successful answers. New ids come with the request.
-/

namespace PrivacySuite.Server

open Go Phase Rbac

/-! ## Answers -/

structure AdminError where
  status : Nat
  message : String
  deriving DecidableEq, Repr

def deny {α : Type} (status : Nat) (message : String) : Except AdminError α :=
  .error ⟨status, message⟩

/-- What is left behind: the database, and the error if the request failed. -/
structure AdminReply where
  db : RbacDb
  error : Option AdminError := none

def errCreateOrgAdminGroupSuperOnly : String := "only super admin can create org admin groups"
def errSetOrgAdminStatusSuperOnly : String :=
  "only super admin can change org admin status on groups"
def errDeleteOrgAdminGroupSuperOnly : String := "only super admin can delete org admin groups"
def errModifyOrgAdminGroupSuperOnly : String :=
  "only super admin can modify membership or access of org admin groups"
def errAdminRolesMutuallyExclusive : String :=
  "a group cannot be both a full org admin and a read-only org admin"
def errOrgAdminClaimsNotApplicable : String :=
  "claims do not apply to org-admin groups — members receive all claims on every contract " ++
    "automatically; leave claims empty"
def errOrgAdminMethodsRequired : String := "org-admin groups must have at least one allowed method"
def errUnsupportedAllowedMethod : String := "allowed_methods contains an unsupported RPC method"
def errPassthroughAdminTierOnly : String :=
  "passthrough methods can only be granted with an admin-tier token"
def errOperatorNoTenantMgmt : String :=
  "per-org management is the org admin's job; the operator token is for platform/bootstrap only"
def errTargetForeignOrg : String := "access denied to target resource"
def errMembershipForeignOrg : String := "access denied to target group"
def errReadonlyAdmin : String := "mutating actions are restricted for read-only admins"

/-! ## Callers -/

/-- `auth_method` of the request context; `dev` is the empty one. -/
inductive AuthMethod where
  | jwtAdmin
  | adminToken
  | operatorToken
  | dev
  deriving DecidableEq, Repr

/-- What `adminAuthMiddleware` leaves in the request context. -/
structure Caller where
  authMethod : AuthMethod
  userID : String := ""
  adminOrgIDs : List String := []
  readonlyOrgIDs : List String := []

/-- `adminAuthMiddleware` for a valid token of the subject. -/
def authenticate (db : RbacDb) (now : Int) (subject : String) : Except AdminError Caller :=
  match db.getUserByExternalID subject with
  | none => deny 401 "user not found"
  | some user => do
      onlyIf (user.banned = true) (deny 403 "user is banned")
      onlyIf (db.isOrgAdmin now user.id = [] ∧ db.isOrgReadonlyAdmin now user.id = [])
        (deny 403 "insufficient permissions: org admin or read-only admin required")
      return {
        authMethod := .jwtAdmin
        userID := user.id
        adminOrgIDs := db.isOrgAdmin now user.id
        readonlyOrgIDs := db.isOrgReadonlyAdmin now user.id }

/-- `orgScopingMiddleware`, for a mutating request. The organization is empty on a route
without one. -/
def orgScoping (c : Caller) (orgID : String) : Except AdminError Unit :=
  match c.authMethod with
  | .jwtAdmin =>
      if orgID = "" then onlyIf (c.adminOrgIDs = []) (deny 403 errReadonlyAdmin)
      else if orgID ∈ c.adminOrgIDs ++ c.readonlyOrgIDs then
        onlyIf (orgID ∉ c.adminOrgIDs) (deny 403 errReadonlyAdmin)
      else deny 403 "access denied to this organization"
  | _ => .ok ()

/-! ## Gates -/

def defaultOrgID : String := "00000000-0000-0000-0000-000000000001"
def defaultGroupID : String := "00000000-0000-0000-0000-000000000001"
def anonymousGroupID : String := "00000000-0000-0000-0000-000000000002"

def verifyGroupBelongsToPathOrg (pathOrg : String) (group : Option GroupRow) :
    Except AdminError GroupRow :=
  match group with
  | none => deny 403 errTargetForeignOrg
  | some group =>
      if pathOrg = "" ∨ group.orgID ≠ pathOrg then deny 403 errTargetForeignOrg else .ok group

/-- The group of a membership request: an unknown one is denied like a foreign one. -/
def membershipGroup (group : Option GroupRow) : Except AdminError GroupRow :=
  match group with
  | none => deny 403 errMembershipForeignOrg
  | some group => .ok group

def denyJWTAdminTouchOrgAdminGroup (c : Caller) (group : GroupRow) : Except AdminError Unit :=
  onlyIf (group.isOrgAdmin = true ∧ c.authMethod = .jwtAdmin)
    (deny 403 errModifyOrgAdminGroupSuperOnly)

def denyOperatorRegularGroup (c : Caller) (group : GroupRow) : Except AdminError Unit :=
  onlyIf (c.authMethod = .operatorToken ∧ group.isOrgAdmin = false ∧
      group.isOrgReadonlyAdmin = false ∧ group.isSystem = false ∧ group.id ≠ defaultGroupID)
    (deny 403 errOperatorNoTenantMgmt)

def denyOperatorOrgScoped (c : Caller) (orgID : String) : Except AdminError Unit :=
  onlyIf (c.authMethod = .operatorToken ∧ orgID ≠ defaultOrgID) (deny 403 errOperatorNoTenantMgmt)

/-- The test behind `jwtAdminFullAdminOrgIDs`: a JWT admin must be a full admin of the
organization. -/
def requireFullAdminOf (c : Caller) (orgID message : String) : Except AdminError Unit :=
  onlyIf (c.authMethod = .jwtAdmin ∧ orgID ∉ c.adminOrgIDs) (deny 403 message)

/-- One shared organization is enough. -/
def requireUserInFullAdminScope (c : Caller) (db : RbacDb) (now : Int) (userID : String) :
    Except AdminError Unit :=
  onlyIf (c.authMethod = .jwtAdmin ∧ ∀ orgID ∈ db.getUserOrgIDs now userID, orgID ∉ c.adminOrgIDs)
    (deny 403 errTargetForeignOrg)

/-- The body, if it is one. -/
def shouldBindJSON {α : Type} (body : Option α) : Except AdminError α :=
  match body with
  | none => deny 400 "invalid request body"
  | some input => .ok input

/-! ### What passes -/

theorem onlyIf_deny {p : Prop} [Decidable p] {status : Nat} {message : String} {u : Unit} :
    onlyIf p (deny status message) = .ok u ↔ ¬ p := by
  unfold onlyIf
  by_cases hp : p
  · simp [hp, deny]
  · simp [hp]

theorem shouldBindJSON_eq_ok {α : Type} {body : Option α} {input : α} :
    shouldBindJSON body = .ok input ↔ body = some input := by
  cases body <;> simp [shouldBindJSON, deny]

theorem verifyGroup_eq_ok {pathOrg : String} {found : Option GroupRow} {group : GroupRow} :
    verifyGroupBelongsToPathOrg pathOrg found = .ok group ↔
      found = some group ∧ pathOrg ≠ "" ∧ group.orgID = pathOrg := by
  unfold verifyGroupBelongsToPathOrg
  cases found with
  | none => simp [deny]
  | some g =>
    by_cases hforeign : pathOrg = "" ∨ g.orgID ≠ pathOrg
    · simp only [if_pos hforeign, deny, Option.some.injEq]
      constructor
      · intro h
        cases h
      · rintro ⟨rfl, hne, heq⟩
        exact absurd hforeign (by simp [hne, heq])
    · simp only [if_neg hforeign, Except.ok.injEq, Option.some.injEq]
      rw [not_or, not_not] at hforeign
      constructor
      · rintro rfl
        exact ⟨rfl, hforeign⟩
      · exact fun h => h.1

theorem membershipGroup_eq_ok {found : Option GroupRow} {group : GroupRow} :
    membershipGroup found = .ok group ↔ found = some group := by
  cases found <;> simp [membershipGroup, deny]

/-! ## Groups -/

/-- Empty, or what is wrong. -/
def validateSlug (slug : String) : String :=
  if slug = "" then "slug is required"
  else if 100 < byteLen slug then "slug must be 100 characters or less"
  else if slugRegex slug.toList then ""
  else "slug must contain only letters, numbers, hyphens, and underscores, and start with a " ++
    "letter or number"
where
  slugRegex : List Char → Bool
    | [] => false
    | first :: rest => first.isAlphanum && rest.all fun c => c.isAlphanum || c == '_' || c == '-'

def uniqueConflictMessage : Constraint → String
  | .idxGroupsOrgNameUnique =>
      "group with this name already exists in this organization (names are case-insensitive)"
  | .groupsOrgIdSlugKey => "group with this slug already exists in this organization"
  | _ => "group with this slug or name already exists in this organization"

/-- The answer to a group row the database refused. -/
def groupRefused (message : String) (violated : Constraint) : AdminError :=
  if violated.isUniqueViolation then ⟨409, uniqueConflictMessage violated⟩ else ⟨500, message⟩

structure GroupCreateInput where
  slug : String
  name : String
  description : String := ""
  isOrgAdmin : Bool := false
  isOrgReadonlyAdmin : Bool := false

def createGroup (c : Caller) (db : RbacDb) (orgID newID : String)
    (body : Option GroupCreateInput) : Except AdminError AdminReply := do
  let input ← shouldBindJSON body
  onlyIf (input.slug = "" ∨ input.name = "") (deny 400 "invalid request body")
  onlyIf (validateSlug input.slug ≠ "") (deny 400 (validateSlug input.slug))
  onlyIf (c.authMethod = .jwtAdmin ∧ input.isOrgAdmin = true)
    (deny 403 errCreateOrgAdminGroupSuperOnly)
  onlyIf (c.authMethod = .operatorToken ∧ input.isOrgAdmin = false ∧
      input.isOrgReadonlyAdmin = false ∧ orgID ≠ defaultOrgID)
    (deny 403 errOperatorNoTenantMgmt)
  onlyIf (input.isOrgAdmin = true ∧ input.isOrgReadonlyAdmin = true)
    (deny 400 errAdminRolesMutuallyExclusive)
  let db ← orFail
    (db.createGroup {
      id := newID, orgID, slug := input.slug, name := input.name
      description := input.description
      isOrgAdmin := input.isOrgAdmin, isOrgReadonlyAdmin := input.isOrgReadonlyAdmin })
    (groupRefused "failed to create group")
  return { db }

structure GroupUpdateInput where
  name : Option String := none
  description : Option String := none
  isOrgAdmin : Option Bool := none
  isOrgReadonlyAdmin : Option Bool := none

/-- The group with the fields the body names. -/
def GroupUpdateInput.merge (input : GroupUpdateInput) (group : GroupRow) : GroupRow :=
  { group with
    name := input.name.getD group.name
    description := input.description.getD group.description
    isOrgAdmin := input.isOrgAdmin.getD group.isOrgAdmin
    isOrgReadonlyAdmin := input.isOrgReadonlyAdmin.getD group.isOrgReadonlyAdmin }

def updateGroup (c : Caller) (db : RbacDb) (orgID groupID : String)
    (body : Option GroupUpdateInput) : Except AdminError AdminReply := do
  let group ← verifyGroupBelongsToPathOrg orgID (db.getGroup groupID)
  onlyIf (group.isSystem = true) (deny 403 "system group cannot be modified")
  let input ← shouldBindJSON body
  onlyIf (c.authMethod = .jwtAdmin ∧ input.isOrgAdmin ≠ none)
    (deny 403 errSetOrgAdminStatusSuperOnly)
  onlyIf (c.authMethod = .operatorToken ∧ group.isOrgAdmin = false ∧
      group.isOrgReadonlyAdmin = false ∧ input.isOrgAdmin ≠ some true ∧
      input.isOrgReadonlyAdmin ≠ some true)
    (deny 403 errOperatorNoTenantMgmt)
  onlyIf ((input.merge group).isOrgAdmin = true ∧ (input.merge group).isOrgReadonlyAdmin = true)
    (deny 400 errAdminRolesMutuallyExclusive)
  let db ← orFail (db.updateGroup (input.merge group)) (groupRefused "failed to update group")
  return { db }

def deleteGroup (c : Caller) (db : RbacDb) (orgID groupID : String) :
    Except AdminError AdminReply := do
  let group ← verifyGroupBelongsToPathOrg orgID (db.getGroup groupID)
  onlyIf (group.isSystem = true) (deny 403 "system group cannot be deleted")
  onlyIf (group.isOrgAdmin = true ∧ c.authMethod = .jwtAdmin)
    (deny 403 errDeleteOrgAdminGroupSuperOnly)
  denyOperatorRegularGroup c group
  return { db := db.deleteGroup groupID }

/-- A refused batch is rolled back. Unlike `deleteGroup` it takes system groups. -/
def batchDeleteGroups (c : Caller) (db : RbacDb) (orgID : String)
    (body : Option (List String)) : Except AdminError AdminReply := do
  let groupIDs ← shouldBindJSON body
  onlyIf (groupIDs = []) (deny 400 "group_ids is required")
  onlyIf (200 < groupIDs.length) (deny 400 "too many group_ids (max 200)")
  onlyIf (∃ id ∈ groupIDs, id ∉ (db.getGroupsByIDs orgID groupIDs).map (·.id))
    (deny 400 "one or more groups not found in this organization")
  onlyIf (c.authMethod = .jwtAdmin ∧
      ∃ g ∈ db.getGroupsByIDs orgID groupIDs, g.isOrgAdmin = true)
    (deny 403 errDeleteOrgAdminGroupSuperOnly)
  onlyIf (c.authMethod = .operatorToken ∧
      ∃ g ∈ db.getGroupsByIDs orgID groupIDs, g.isOrgAdmin = false ∧
        g.isOrgReadonlyAdmin = false ∧ g.isSystem = false)
    (deny 403 errOperatorNoTenantMgmt)
  return { db := db.deleteGroups groupIDs }

/-! ## Group access -/

/-- The libraries and the configuration the handlers use. -/
structure AdminConfig where
  registry : MethodRegistry := {}
  production : Bool := true
  /-- `uuid.Parse` succeeds. -/
  uuidParse : String → Bool
  /-- `time.Parse` in the RFC 3339 format. -/
  timeParse : String → Option Int
  encrypt : String → Except String String
  /-- `w3c.ParseDID`: the method of a DID. -/
  parseDID : String → Option String
  /-- `core.IDFromDID` succeeds: the checksum of an identifier. -/
  idFromDID : String → Bool

/-- What a `"*"` stands for, sorted. -/
def allAllowedMethods (reg : MethodRegistry) : List String :=
  ((readMethods ++ writeMethods ++ traceMethods ++ reg.extraMethods).filter
    reg.inWildcardExpansion).dedup.insertionSort (· ≤ ·)

def expandWildcardMethods (reg : MethodRegistry) (methods : List String) : List String :=
  if methods.contains "*" then
    ((allAllowedMethods reg ++ methods).filter (· ≠ "*")).dedup.insertionSort (· ≤ ·)
  else methods

/-- No method needs a claim to be listed. -/
def getClaimForMethod (_method : String) : Option Claim := none

def validateMethodsMatchClaims (methods : List String) (claims : List Claim) : Bool :=
  methods.all fun method => (getClaimForMethod method).all claims.contains

/-- `IsAssignableMethod`, and the catalog only for the anonymous group. -/
def assignable (reg : MethodRegistry) (group : GroupRow) (method : String) : Bool :=
  if group.isSystem && group.id == anonymousGroupID then isCatalogMethod method
  else reg.isForwardableMethod method

/-- The passthrough gate: a method that was not granted before. -/
def grantsPassthrough (reg : MethodRegistry) (existing : Option AccessRow)
    (methods : List String) : Bool :=
  methods.any fun method => reg.passthroughMethods.contains method &&
    !(existing.any (·.allowedMethods.contains method))

/-- A passthrough method that passes the gate is in the row there is. -/
theorem granted_of_grantsPassthrough {reg : MethodRegistry} {existing : Option AccessRow}
    {methods : List String} {method : String} (h : grantsPassthrough reg existing methods = false)
    (hmethod : method ∈ methods) (hpassthrough : method ∈ reg.passthroughMethods) :
    ∃ access, existing = some access ∧ method ∈ access.allowedMethods := by
  have hgranted := List.any_eq_false.mp h method hmethod
  simpa [hpassthrough, Option.any_eq_true] using hgranted

/-- What an access row of an org-admin group, or of another one, must look like. -/
def accessShape (group : GroupRow) (methods : List String) (claims : List Claim) :
    Except AdminError Unit :=
  if group.isOrgAdmin then do
    onlyIf (claims ≠ []) (deny 400 errOrgAdminClaimsNotApplicable)
    onlyIf (methods = []) (deny 400 errOrgAdminMethodsRequired)
  else
    onlyIf (validateMethodsMatchClaims methods claims = false) (deny 400 "method/claim mismatch")

/-- The key as it is stored: an empty one is not encrypted. -/
def storedKey (cfg : AdminConfig) (key : Option String) : Except AdminError (Option String) :=
  match key with
  | none => .ok none
  | some "" => .ok (some "")
  | some key => do
      let encrypted ← orFail (cfg.encrypt key) fun _ => ⟨500, "failed to encrypt API key"⟩
      return some encrypted

structure AccessInput where
  allowedMethods : List String := []
  claims : List Claim := []
  rpcAPIKey : Option String := none
  verboseErrors : Bool := false

def setGroupAccess (cfg : AdminConfig) (c : Caller) (db : RbacDb) (orgID groupID : String)
    (body : Option AccessInput) : Except AdminError AdminReply := do
  let group ← verifyGroupBelongsToPathOrg orgID (db.getGroup groupID)
  onlyIf (group.isSystem = true ∧ c.authMethod ≠ .adminToken)
    (deny 403 "system group access can only be modified by super admin (X-Admin-Token)")
  denyJWTAdminTouchOrgAdminGroup c group
  denyOperatorRegularGroup c group
  let input ← shouldBindJSON body
  onlyIf ((group.isSystem = true ∧ group.id = anonymousGroupID) ∧ "*" ∈ input.allowedMethods)
    (deny 400 errUnsupportedAllowedMethod)
  onlyIf ((expandWildcardMethods cfg.registry input.allowedMethods).all
      (assignable cfg.registry group) = false)
    (deny 400 errUnsupportedAllowedMethod)
  onlyIf (c.authMethod = .jwtAdmin ∧ grantsPassthrough cfg.registry (db.getGroupAccess groupID)
      (expandWildcardMethods cfg.registry input.allowedMethods) = true)
    (deny 403 errPassthroughAdminTierOnly)
  accessShape group (expandWildcardMethods cfg.registry input.allowedMethods)
    (Resolver.expandClaims input.claims)
  let rpcAPIKey ← storedKey cfg input.rpcAPIKey
  let db ← orFail
    (writeAccess db {
      groupID
      allowedMethods := expandWildcardMethods cfg.registry input.allowedMethods
      claims := Resolver.expandClaims input.claims
      rpcAPIKey
      verboseErrors := input.verboseErrors })
    fun _ => ⟨500, "failed to set group access"⟩
  return { db }
where
  /-- The row is updated if there is one. -/
  writeAccess (db : RbacDb) (access : AccessRow) : Except Constraint RbacDb :=
    match db.getGroupAccess access.groupID with
    | some _ => db.updateGroupAccess access
    | none => db.createGroupAccess access

/-! ## Memberships -/

def parseMembershipExpiry (cfg : AdminConfig) (now : Int) (raw : Option String) :
    Except AdminError (Option Int) :=
  match raw with
  | none => .ok none
  | some raw =>
      if trimSpace raw = "" then .ok none
      else
        match cfg.timeParse (trimSpace raw) with
        | none => deny 400 "expires_at must be an RFC3339 timestamp"
        | some expiry =>
            if now < expiry then .ok (some expiry)
            else deny 400 "expires_at must be in the future"

/-- The answer to a membership row the database refused. -/
def membershipRefused (violated : Constraint) : AdminError :=
  if violated.isUniqueViolation then ⟨409, "user is already a member of this group"⟩
  else ⟨500, "failed to create membership"⟩

structure MembershipInput where
  groupID : String
  expiresAt : Option String := none

def createUserMembership (cfg : AdminConfig) (c : Caller) (db : RbacDb) (now : Int)
    (userID newID : String) (body : Option MembershipInput) : Except AdminError AdminReply := do
  requireUserInFullAdminScope c db now userID
  let input ← shouldBindJSON body
  onlyIf (input.groupID = "") (deny 400 "invalid request body")
  onlyIf (cfg.uuidParse input.groupID = false) (deny 400 "invalid group_id")
  let group ← membershipGroup (db.getGroup input.groupID)
  requireFullAdminOf c group.orgID errMembershipForeignOrg
  denyJWTAdminTouchOrgAdminGroup c group
  denyOperatorRegularGroup c group
  let expiresAt ← parseMembershipExpiry cfg now input.expiresAt
  let db ← orFail
    (db.createMembership { id := newID, userID, groupID := input.groupID, expiresAt })
    membershipRefused
  return { db }

/-- What stands between the first two colons. -/
def didMethodOf (did : String) : String :=
  match did.toList with
  | 'd' :: 'i' :: 'd' :: ':' :: rest =>
      if rest.contains ':' then String.ofList (rest.takeWhile (· ≠ ':')) else ""
  | _ => ""

def isRelaxedDIDSyntax (did : String) : Bool :=
  match did.toList with
  | 'd' :: 'i' :: 'd' :: ':' :: rest =>
      match rest.splitOn ':' with
      | [] => false
      | method :: segments =>
          !method.isEmpty && !segments.isEmpty &&
            method.all (fun c => c.isLower || c.isDigit) &&
            segments.all fun segment => !segment.isEmpty && segment.all fun c =>
              c.isAlphanum || c == '.' || c == '-' || c == '_'
  | _ => false

/-- The methods whose identifiers carry a checksum. -/
def isIden3Method (method : String) : Bool := method == "iden3" || method == "polygonid"

def validateOnboardDID (cfg : AdminConfig) (did : String) : Bool :=
  if 255 < byteLen did then false
  else
    match cfg.parseDID did with
    | some method => !isIden3Method method || cfg.idFromDID did
    | none => !cfg.production && !isIden3Method (didMethodOf did) && isRelaxedDIDSyntax did

/-- `EnsureUserExists` without the default group: the user with the DID, made if there is
none. -/
def ensureUserExists (db : RbacDb) (did newUserID : String) :
    Except Constraint (User × RbacDb) :=
  match db.getUserByExternalID did with
  | some user => .ok (user, db)
  | none => do
      let db ← db.createUser { id := newUserID, externalID := did }
      return ({ id := newUserID, externalID := did }, db)

structure MembershipByDIDInput where
  did : String
  groupID : String
  expiresAt : Option String := none

/-- The gates the two by-DID handlers share: the group, in the organization of the path. -/
def groupByDID (cfg : AdminConfig) (c : Caller) (db : RbacDb) (orgID groupID : String)
    (didOk : Bool) : Except AdminError GroupRow := do
  onlyIf (cfg.uuidParse groupID = false) (deny 400 "invalid group_id")
  requireFullAdminOf c orgID errTargetForeignOrg
  onlyIf (didOk = false) (deny 400 "invalid did")
  let group ← membershipGroup (db.getGroup groupID)
  onlyIf (group.orgID ≠ orgID) (deny 403 errMembershipForeignOrg)
  denyJWTAdminTouchOrgAdminGroup c group
  denyOperatorRegularGroup c group
  return group

/-- A user it provisioned stays when the membership is refused. -/
def createMembershipByDID (cfg : AdminConfig) (c : Caller) (db : RbacDb) (now : Int)
    (orgID newUserID newID : String) (body : Option MembershipByDIDInput) :
    Except AdminError AdminReply := do
  let input ← shouldBindJSON body
  onlyIf (input.did = "" ∨ input.groupID = "") (deny 400 "invalid request body")
  let _ ← groupByDID cfg c db orgID input.groupID (validateOnboardDID cfg (trimSpace input.did))
  let expiresAt ← parseMembershipExpiry cfg now input.expiresAt
  let (user, db) ← orFail (ensureUserExists db (trimSpace input.did) newUserID) fun _ =>
    ⟨500, "failed to onboard user"⟩
  return addMember db { id := newID, userID := user.id, groupID := input.groupID, expiresAt }
where
  addMember (db : RbacDb) (membership : MembershipRow) : AdminReply :=
    match db.createMembership membership with
    | .ok db => { db }
    | .error violated => { db, error := some (membershipRefused violated) }

/-- A row that must be there, and is denied like a foreign one if it is not. -/
def foundOrForeign {α : Type} (row : Option α) : Except AdminError α :=
  match row with
  | none => deny 403 errMembershipForeignOrg
  | some row => .ok row

theorem foundOrForeign_eq_ok {α : Type} {found : Option α} {row : α} :
    foundOrForeign found = .ok row ↔ found = some row := by
  cases found <;> simp [foundOrForeign, deny]

structure MembershipByDIDRemoval where
  did : String
  groupID : String

/-- The DID is not checked. -/
def deleteMembershipByDID (cfg : AdminConfig) (c : Caller) (db : RbacDb) (orgID : String)
    (body : Option MembershipByDIDRemoval) : Except AdminError AdminReply := do
  let input ← shouldBindJSON body
  onlyIf (input.did = "" ∨ input.groupID = "") (deny 400 "invalid request body")
  let _ ← groupByDID cfg c db orgID input.groupID true
  let user ← foundOrForeign (db.getUserByExternalID (trimSpace input.did))
  let membership ← foundOrForeign (db.getMembershipByUserAndGroup user.id input.groupID)
  return { db := db.deleteMembership membership.id }

def deleteUserMembership (c : Caller) (db : RbacDb) (userID membershipID : String) :
    Except AdminError AdminReply := do
  let membership ← foundOrForeign (db.getMembership membershipID)
  let group ← membershipGroup (db.getGroup membership.groupID)
  requireFullAdminOf c group.orgID errMembershipForeignOrg
  onlyIf (membership.userID ≠ userID) (deny 403 errMembershipForeignOrg)
  denyJWTAdminTouchOrgAdminGroup c group
  denyOperatorRegularGroup c group
  return { db := db.deleteMembership membershipID }

/-! ## Users -/

/-- The loop of `deleteRBACUser` over the memberships, and the user. -/
def deleteUserRows (db : RbacDb) (userID : String) : RbacDb :=
  ((db.listUserMemberships userID).foldl (fun db m => db.deleteMembership m.id) db).deleteUser
    userID

/-- No gate looks at the groups of the memberships it deletes. -/
def deleteRBACUser (c : Caller) (db : RbacDb) (now : Int) (userID : String) :
    Except AdminError AdminReply := do
  denyOperatorOrgScoped c ""
  requireUserInFullAdminScope c db now userID
  onlyIf (db.getUser userID = none) (deny 403 errTargetForeignOrg)
  return { db := deleteUserRows db userID }

/-! ## Requests -/

/-- The mutating routes, with their path parameters, bodies and new ids. -/
inductive AdminAction where
  | createGroup (orgID newID : String) (body : Option GroupCreateInput)
  | updateGroup (orgID groupID : String) (body : Option GroupUpdateInput)
  | deleteGroup (orgID groupID : String)
  | setGroupAccess (orgID groupID : String) (body : Option AccessInput)
  | batchDeleteGroups (orgID : String) (body : Option (List String))
  | deleteRBACUser (userID : String)
  | createUserMembership (userID newID : String) (body : Option MembershipInput)
  | createMembershipByDID (orgID newUserID newID : String) (body : Option MembershipByDIDInput)
  | deleteMembershipByDID (orgID : String) (body : Option MembershipByDIDRemoval)
  | deleteUserMembership (userID membershipID : String)

def AdminAction.pathOrg : AdminAction → String
  | .createGroup orgID _ _ => orgID
  | .updateGroup orgID _ _ => orgID
  | .deleteGroup orgID _ => orgID
  | .setGroupAccess orgID _ _ => orgID
  | .batchDeleteGroups orgID _ => orgID
  | .createMembershipByDID orgID _ _ _ => orgID
  | .deleteMembershipByDID orgID _ => orgID
  | .deleteRBACUser _ | .createUserMembership _ _ _ | .deleteUserMembership _ _ => ""

def dispatch (cfg : AdminConfig) (c : Caller) (db : RbacDb) (now : Int) :
    AdminAction → Except AdminError AdminReply
  | .createGroup orgID newID body => createGroup c db orgID newID body
  | .updateGroup orgID groupID body => updateGroup c db orgID groupID body
  | .deleteGroup orgID groupID => deleteGroup c db orgID groupID
  | .setGroupAccess orgID groupID body => setGroupAccess cfg c db orgID groupID body
  | .batchDeleteGroups orgID body => batchDeleteGroups c db orgID body
  | .deleteRBACUser userID => deleteRBACUser c db now userID
  | .createUserMembership userID newID body => createUserMembership cfg c db now userID newID body
  | .createMembershipByDID orgID newUserID newID body =>
      createMembershipByDID cfg c db now orgID newUserID newID body
  | .deleteMembershipByDID orgID body => deleteMembershipByDID cfg c db orgID body
  | .deleteUserMembership userID membershipID => deleteUserMembership c db userID membershipID

/-- A request with a valid token of the subject. -/
structure AdminRequest where
  subject : String
  now : Int
  action : AdminAction

/-- A request through the middlewares to its handler. -/
def serve (cfg : AdminConfig) (db : RbacDb) (req : AdminRequest) : AdminReply :=
  match handled with
  | .ok reply => reply
  | .error error => { db, error := some error }
where
  handled : Except AdminError AdminReply := do
    let c ← authenticate db req.now req.subject
    orgScoping c req.action.pathOrg
    dispatch cfg c db req.now req.action

end PrivacySuite.Server
