import PrivacySuite.Rbac.Models
import PrivacySuite.Concurrency.Reads
import PrivacySuite.Go.Values

/-!
# Computing effective permissions

`internal/rbac/resolver.go`: the permissions of a user in an organization, put
together from the membership, group access, grant and contract rows. The rows are
read in separate queries with nothing held between them, so `computePermissions`
is a computation of reads: the database may have changed from one query to the
next. `time.Now` is one more query.

The records extend those of `Rbac.Models` by the fields only the resolver reads.
The random UUID of a result is left out; nothing looks at it.
-/

namespace PrivacySuite.Rbac

open Go Concurrency

/-- The claim as the string it is in Go. -/
def Claim.text : Claim → String
  | .admin => "admin"
  | .upgrade => "upgrade"
  | .deploy => "deploy"
  | .other name => name

/-! ## Rows and results -/

/-- `EffectivePermissions`, with whose they are and how long they hold. -/
structure ResolvedPermissions extends EffectivePermissions where
  userID : String
  orgID : String
  computedAt : Time
  expiresAt : Time
  deriving DecidableEq, Repr

/-- A row of `ListUserMembershipsInOrg`: the group is always set there. `expiresAt`
is the expiry of the membership, `none` for a nil one. -/
structure OrgMembership where
  group : Group
  expiresAt : Option Time := none
  deriving DecidableEq, Repr

/-- `GroupAccess`, with the stored key. -/
structure GroupAccessRow extends GroupAccess where
  rpcAPIKey : Option String := none
  deriving DecidableEq, Repr

/-- `functions = none` is the nil slice, every function. -/
structure ContractGrant where
  contractID : String
  functions : Option (List FunctionRule) := none
  eventRules : Option EventRulesField := none
  deriving DecidableEq, Repr

/-- `Contract`, with its address. -/
structure ContractRow extends Contract where
  address : String
  deriving DecidableEq, Repr

inductive Query where
  | listUserMembershipsInOrg (userID orgID : String)
  | listContracts (orgID : String)
  | getGroupAccessBatch (groupIDs : List String)
  | listContractGrantsBatch (groupIDs : List String)
  | getContractsByIDs (contractIDs : List String)
  | now
  deriving DecidableEq, Repr

/-- What a query answers; every one but the clock may fail. A Go map is the list
of its entries. -/
def Answer : Query → Type
  | .listUserMembershipsInOrg _ _ => Except String (List OrgMembership)
  | .listContracts _ => Except String (List ContractRow)
  | .getGroupAccessBatch _ => Except String (List (String × GroupAccessRow))
  | .listContractGrantsBatch _ => Except String (List (String × List ContractGrant))
  | .getContractsByIDs _ => Except String (List (String × ContractRow))
  | .now => Time

abbrev Compute (α : Type) : Type := ExceptT String (Reads Query Answer) α

/-- The cache lifetime, and the decryption of stored keys. -/
structure Resolver where
  cacheTTL : Int
  decrypt : String → Except String String := .ok

namespace Resolver

def listUserMembershipsInOrg (userID orgID : String) : Compute (List OrgMembership) :=
  ExceptT.mk (Reads.ask (.listUserMembershipsInOrg userID orgID) Reads.done)

def listContracts (orgID : String) : Compute (List ContractRow) :=
  ExceptT.mk (Reads.ask (.listContracts orgID) Reads.done)

def getGroupAccessBatch (groupIDs : List String) : Compute (List (String × GroupAccessRow)) :=
  ExceptT.mk (Reads.ask (.getGroupAccessBatch groupIDs) Reads.done)

def listContractGrantsBatch (groupIDs : List String) :
    Compute (List (String × List ContractGrant)) :=
  ExceptT.mk (Reads.ask (.listContractGrantsBatch groupIDs) Reads.done)

def getContractsByIDs (contractIDs : List String) : Compute (List (String × ContractRow)) :=
  ExceptT.mk (Reads.ask (.getContractsByIDs contractIDs) Reads.done)

def now : Compute Time := ExceptT.lift (Reads.ask .now Reads.done)

/-! ## Unions over memberships -/

/-- Without case duplicates, the first spelling wins against the second slice and the last
within the first. -/
def unionStrings (a b : List String) : List String :=
  (b.foldl (fun set s => if (set.lookup (toLower s)).isSome then set else mapSet set (toLower s) s)
    (a.foldl (fun set s => mapSet set (toLower s) s) [])).map Prod.snd

def unionClaims (a b : List Claim) : List Claim := (a ++ b).dedup

/-- The rule both sides of a union allow: without parameter rules when either side
has none, and otherwise the one already there. -/
def mergeFunctionRule (existing rule : FunctionRule) : FunctionRule :=
  if existing.paramRules = [] ∨ rule.paramRules = [] then { selector := rule.selector }
  else existing

/-- Nil is every function, and wins. -/
def unionFunctions (a b : Option (List FunctionRule)) : Option (List FunctionRule) :=
  match a, b with
  | some a, some b =>
      some ((b.foldl (fun seen rule =>
        match seen.lookup (toLower rule.selector) with
        | some existing => mapSet seen (toLower rule.selector) (mergeFunctionRule existing rule)
        | none => mapSet seen (toLower rule.selector) rule)
        (a.foldl (fun seen rule => mapSet seen (toLower rule.selector) rule) [])).map Prod.snd)
  | _, _ => none

def mergeEventRule (existing rule : EventRule) : EventRule :=
  if existing.paramRules = [] ∨ rule.paramRules = [] then
    { topic0 := rule.topic0, name := rule.name } else existing

/-- The union of two allowlists, by topic. -/
def unionRules (a b : List EventRule) : List EventRule :=
  (b.foldl (fun seen rule =>
    match seen.lookup (toLower rule.topic0) with
    | some existing => mapSet seen (toLower rule.topic0) (mergeEventRule existing rule)
    | none => mapSet seen (toLower rule.topic0) rule)
    (a.foldl (fun seen rule => mapSet seen (toLower rule.topic0) rule) [])).map Prod.snd

/-- `IsDeny`, with nil. -/
def deniesEvents (f : Option EventRulesField) : Bool :=
  match f with
  | none => true
  | some f => !f.wildcard && f.rules.isEmpty

/-- `IsWildcard`, with nil. -/
def isWildcard (f : Option EventRulesField) : Bool :=
  match f with
  | none => false
  | some f => f.wildcard

/-- A wildcard wins, a side that denies contributes nothing. -/
def unionEventRules (a b : Option EventRulesField) : Option EventRulesField :=
  if isWildcard a then a
  else if isWildcard b then b
  else if deniesEvents a ∧ deniesEvents b then none
  else if deniesEvents a then b
  else if deniesEvents b then a
  else some { rules := unionRules ((a.map (·.rules)).getD []) ((b.map (·.rules)).getD []) }

/-- The access to one contract under two memberships. -/
def mergeContractAccess (existing access : ContractAccess) : ContractAccess where
  claims := unionClaims existing.claims access.claims
  functions := unionFunctions existing.functions access.functions
  eventRules := unionEventRules existing.eventRules access.eventRules

/-- With one side empty the other is copied as it is. -/
def unionContractAccess (a b : List (String × ContractAccess)) : List (String × ContractAccess) :=
  if a = [] then b
  else if b = [] then a
  else
    b.foldl (fun result entry =>
      match result.lookup (toLower entry.1) with
      | some existing => mapSet result (toLower entry.1) (mergeContractAccess existing entry.2)
      | none => mapSet result (toLower entry.1) entry.2)
      (a.foldl (fun result entry => mapSet result (toLower entry.1) entry.2) [])

/-! ## Claims -/

def allClaims : List Claim := [.admin, .upgrade, .deploy]

def claimImplications : Claim → List Claim
  | .admin => [.deploy, .upgrade]
  | _ => []

/-- With what they imply, without duplicates, sorted. -/
def expandClaims (claims : List Claim) : List Claim :=
  (claims.flatMap fun c => c :: claimImplications c).dedup.insertionSort fun a b => a.text ≤ b.text

/-! ## One group's permissions -/

/-- A map that was not loaded is empty. -/
structure GroupPermsBatch where
  access : List (String × GroupAccessRow)
  grants : List (String × List ContractGrant) := []
  contracts : List (String × ContractRow) := []

structure GroupPermSet where
  allowedMethods : List String := []
  contractAccess : List (String × ContractAccess) := []
  claims : List Claim := []
  rpcAPIKey : String := ""

/-- The decrypted key of a group. A key that does not decrypt is taken as it is. -/
def groupKey (r : Resolver) (access : Option GroupAccessRow) : String :=
  match access.bind (·.rpcAPIKey) with
  | none => ""
  | some key => if key = "" then "" else
      match r.decrypt key with
      | .ok plain => plain
      | .error _ => key

/-- The access the grants of a group give: a grant whose contract is gone gives
none, and a later grant on one address replaces an earlier one. -/
def grantedAccess (claims : List Claim) (contracts : List (String × ContractRow))
    (grants : List ContractGrant) : List (String × ContractAccess) :=
  grants.foldl (fun result grant =>
    match contracts.lookup grant.contractID with
    | none => result
    | some contract =>
        mapSet result (toLower contract.address)
          { claims, functions := grant.functions, eventRules := grant.eventRules }) []

def groupPerms (r : Resolver) (batch : GroupPermsBatch) (groupID : String) : GroupPermSet where
  allowedMethods := ((batch.access.lookup groupID).map (·.allowedMethods)).getD []
  contractAccess :=
    grantedAccess (((batch.access.lookup groupID).map (·.claims)).getD []) batch.contracts
      ((batch.grants.lookup groupID).getD [])
  claims := ((batch.access.lookup groupID).map (·.claims)).getD []
  rpcAPIKey := groupKey r (batch.access.lookup groupID)

/-- Distinct, in order. -/
def membershipGroupIDs (memberships : List OrgMembership) : List String :=
  memberships.foldl (fun ids m => if ids.contains m.group.id then ids else ids ++ [m.group.id]) []

/-- The contracts the grants of the groups name, distinct and in order. -/
def grantedContractIDs (groupIDs : List String) (grants : List (String × List ContractGrant)) :
    List String :=
  (groupIDs.flatMap fun id => (grants.lookup id).getD []).foldl
    (fun ids grant => if ids.contains grant.contractID then ids else ids ++ [grant.contractID]) []

/-- The contracts query is skipped when there is nothing to ask for. -/
def contractsFor (contractIDs : List String) : Compute (List (String × ContractRow)) :=
  if contractIDs = [] then pure [] else getContractsByIDs contractIDs

def withGrants (groupIDs : List String) (access : List (String × GroupAccessRow)) :
    Compute GroupPermsBatch := do
  let grants ← listContractGrantsBatch groupIDs
  let contracts ← contractsFor (grantedContractIDs groupIDs grants)
  return { access, grants, contracts }

def loadGroupPerms (groupIDs : List String) (grants : Bool) : Compute GroupPermsBatch := do
  let access ← getGroupAccessBatch groupIDs
  if grants then withGrants groupIDs access else pure { access }

/-! ## The computation -/

/-- The cache lifetime, or the soonest membership expiry before it. -/
def cacheExpiry (r : Resolver) (now : Time) (memberships : List OrgMembership) : Time :=
  memberships.foldl (fun exp m =>
    match m.expiresAt with
    | some expiry => if expiry.before exp then expiry else exp
    | none => exp) (now.add r.cacheTTL)

/-- The first key found, in membership order. -/
def firstKey (sets : List GroupPermSet) : String :=
  sets.foldl (fun key set => if key = "" ∧ set.rpcAPIKey ≠ "" then set.rpcAPIKey else key) ""

/-- Every claim on every contract of the organization; methods and key still come from the
groups. -/
def computeOrgAdminPermissions (r : Resolver) (userID orgID : String)
    (memberships : List OrgMembership) : Compute ResolvedPermissions := do
  let contracts ← listContracts orgID
  let batch ← loadGroupPerms (membershipGroupIDs memberships) false
  let computedAt ← now
  let expiryFrom ← now
  return {
    userID, orgID, computedAt
    allowedMethods := (memberships.map fun m => groupPerms r batch m.group.id).foldl
      (fun methods set => unionStrings methods set.allowedMethods) []
    contractAccess := contracts.foldl (fun access contract =>
      mapSet access (toLower contract.address) { claims := allClaims }) []
    claims := allClaims
    rpcAPIKey := firstKey (memberships.map fun m => groupPerms r batch m.group.id)
    expiresAt := cacheExpiry r expiryFrom memberships }

/-- The permissions so far with those of one more membership. -/
def mergeGroup (final set : GroupPermSet) : GroupPermSet where
  allowedMethods := unionStrings final.allowedMethods set.allowedMethods
  contractAccess := unionContractAccess final.contractAccess set.contractAccess
  claims := unionClaims final.claims set.claims
  rpcAPIKey := if final.rpcAPIKey = "" ∧ set.rpcAPIKey ≠ "" then set.rpcAPIKey else final.rpcAPIKey

/-- The union over the memberships; the first is the baseline. -/
def mergeGroups : List GroupPermSet → GroupPermSet
  | [] => {}
  | first :: rest => rest.foldl mergeGroup first

/-- The permissions of a member without the admin role. -/
def computeMemberPermissions (r : Resolver) (userID orgID : String)
    (memberships : List OrgMembership) : Compute ResolvedPermissions := do
  let batch ← loadGroupPerms (membershipGroupIDs memberships) true
  let computedAt ← now
  let expiryFrom ← now
  return {
    userID, orgID, computedAt
    allowedMethods :=
      (mergeGroups (memberships.map fun m => groupPerms r batch m.group.id)).allowedMethods
    contractAccess :=
      (mergeGroups (memberships.map fun m => groupPerms r batch m.group.id)).contractAccess
    claims := expandClaims
      (mergeGroups (memberships.map fun m => groupPerms r batch m.group.id)).claims
    rpcAPIKey := (mergeGroups (memberships.map fun m => groupPerms r batch m.group.id)).rpcAPIKey
    expiresAt := cacheExpiry r expiryFrom memberships }

/-- No membership: nothing is allowed, for the cache lifetime. -/
def noPermissions (r : Resolver) (userID orgID : String) : Compute ResolvedPermissions := do
  let computedAt ← now
  let expiryFrom ← now
  return { userID, orgID, computedAt, expiresAt := expiryFrom.add r.cacheTTL }

def computePermissions (r : Resolver) (userID orgID : String) : Compute ResolvedPermissions := do
  let memberships ← listUserMembershipsInOrg userID orgID
  if memberships = [] then noPermissions r userID orgID
  else if memberships.any (·.group.isOrgAdmin) then
    computeOrgAdminPermissions r userID orgID memberships
  else computeMemberPermissions r userID orgID memberships

/-- The resolver can compute `p` for some user and organization, under some
answers of the database. -/
def CanCompute (r : Resolver) (p : ResolvedPermissions) : Prop :=
  (computePermissions r p.userID p.orgID).run.Returns (.ok p)

/-! ## The shape of a result -/

/-- The contract map of a result: distinct addresses, all in lower case. -/
structure LowerKeys (m : List (String × ContractAccess)) : Prop where
  nodup : (m.map Prod.fst).Nodup
  lower : ∀ k ∈ m.map Prod.fst, toLower k = k

theorem lowerKeys_nil : LowerKeys [] := ⟨List.nodup_nil, by simp⟩

theorem LowerKeys.mapSet {m : List (String × ContractAccess)} (h : LowerKeys m) (address : String)
    (access : ContractAccess) : LowerKeys (mapSet m (toLower address) access) := by
  refine ⟨nodup_keys_mapSet h.nodup _ _, ?_⟩
  intro k hk
  rcases mem_keys_mapSet.mp hk with hold | rfl
  · exact h.lower k hold
  · exact toLower_toLower address

theorem lowerKeys_grantedAccess (claims : List Claim) (contracts : List (String × ContractRow))
    (grants : List ContractGrant) : LowerKeys (grantedAccess claims contracts grants) := by
  refine List.foldlRecOn grants _ lowerKeys_nil fun m hm grant _ => ?_
  split
  · exact hm
  · exact hm.mapSet _ _

theorem LowerKeys.union {a b : List (String × ContractAccess)} (ha : LowerKeys a)
    (hb : LowerKeys b) : LowerKeys (unionContractAccess a b) := by
  unfold unionContractAccess
  split
  · exact hb
  · split
    · exact ha
    · refine List.foldlRecOn b _
        (List.foldlRecOn a _ lowerKeys_nil fun m hm entry _ => hm.mapSet _ _) fun m hm entry _ => ?_
      split
      · exact hm.mapSet _ _
      · exact hm.mapSet _ _

theorem lowerKeys_mergeGroups {sets : List GroupPermSet}
    (h : ∀ set ∈ sets, LowerKeys set.contractAccess) :
    LowerKeys (mergeGroups sets).contractAccess := by
  cases sets with
  | nil => exact lowerKeys_nil
  | cons first rest =>
    -- the baseline changes along the loop, its keys stay lower-case
    refine List.foldlRecOn rest mergeGroup (motive := fun base => LowerKeys base.contractAccess)
      (h first List.mem_cons_self) fun base hbase set hset => ?_
    exact hbase.union (h set (List.mem_cons_of_mem first hset))

/-- Whatever the database answers, a result is for the user and the organization it was
computed for, and its contract map has distinct lower-case keys. -/
theorem computePermissions_ok {r : Resolver} {userID orgID : String} {p : ResolvedPermissions}
    (h : (computePermissions r userID orgID).run.Returns (.ok p)) :
    p.userID = userID ∧ p.orgID = orgID ∧ LowerKeys p.contractAccess := by
  unfold computePermissions at h
  obtain ⟨memberships, -, h⟩ := Reads.returns_ok_bind.mp h
  split at h
  · obtain ⟨_, -, h⟩ := Reads.returns_ok_bind.mp h
    obtain ⟨_, -, h⟩ := Reads.returns_ok_bind.mp h
    rw [Reads.returns_ok_pure.mp h]
    exact ⟨rfl, rfl, lowerKeys_nil⟩
  · split at h
    · obtain ⟨contracts, -, h⟩ := Reads.returns_ok_bind.mp h
      obtain ⟨_, -, h⟩ := Reads.returns_ok_bind.mp h
      obtain ⟨_, -, h⟩ := Reads.returns_ok_bind.mp h
      obtain ⟨_, -, h⟩ := Reads.returns_ok_bind.mp h
      rw [Reads.returns_ok_pure.mp h]
      exact ⟨rfl, rfl,
        List.foldlRecOn contracts _ lowerKeys_nil fun m hm contract _ => hm.mapSet _ _⟩
    · obtain ⟨batch, -, h⟩ := Reads.returns_ok_bind.mp h
      obtain ⟨_, -, h⟩ := Reads.returns_ok_bind.mp h
      obtain ⟨_, -, h⟩ := Reads.returns_ok_bind.mp h
      rw [Reads.returns_ok_pure.mp h]
      refine ⟨rfl, rfl, lowerKeys_mergeGroups fun set hset => ?_⟩
      obtain ⟨m, -, rfl⟩ := List.mem_map.mp hset
      exact lowerKeys_grantedAccess _ _ _

end Resolver

end PrivacySuite.Rbac
