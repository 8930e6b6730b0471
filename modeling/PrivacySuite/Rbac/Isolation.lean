import PrivacySuite.Rbac.AccessSpec

/-!
# Isolation between organizations

Two results about every access check of a signed-in caller.

* `checkAccess_cross_org_isolation`: an allowed request reaches no address owned
  by an organization outside the caller's (scoped) memberships, neither through
  its target nor through an `eth_getLogs` filter, whatever organization it names.
* `entitledIn_iff_ownerDecides`: whether an owned target that passed the contract
  gate is backed by what the caller holds in the owning organization. It is,
  unless the request is evaluated in another organization and the target is
  pre-registered: the pre-registration branch then weighs the owner's plan
  against the claims of the evaluated organization
  (`preregistered_opened_by_foreign_claim`).

An address string that is only white space names no address, here as in
`CheckAddressInScope`.
-/

namespace PrivacySuite.Rbac

open Go Phase List

/-! ## Precompile strings carry no white space -/

theorem precompileAddresses_no_space :
    precompileAddresses.all (fun a => a.toList.all fun ch => !isSpace ch) = true := by
  have hdigits : precompileAddresses = (List.range 9).map fun i =>
      String.ofList ('0' :: 'x' :: List.replicate 39 '0' ++ [Char.ofNat (0x31 + i)]) := rfl
  simp only [hdigits, all_map, Function.comp_def, String.toList_ofList]
  decide

/-- A string that reads as a precompile is its own trimmed form: trimming happens
before the ownership check and not before the precompile check, so the two would
otherwise look at different addresses. -/
theorem trimSpace_of_isPrecompileAddress {addr : String} (h : isPrecompileAddress addr = true) :
    trimSpace addr = addr := by
  unfold isPrecompileAddress at h
  have hmem : normalizeAddress addr ∈ precompileAddresses := contains_iff_mem.mp h
  have hall := all_eq_true.mp precompileAddresses_no_space _ hmem
  have hdigits : ∀ ch ∈ (toLower (trimPrefix addr "0x")).toList, isSpace ch = false := by
    intro ch hch
    have := all_eq_true.mp hall ch
      (by simp only [normalizeAddress, String.toList_append, mem_append]; exact .inr hch)
    simpa using this
  have htail := no_space_of_toLower hdigits
  refine trimSpace_of_no_space fun ch hch => ?_
  by_cases hp : hasPrefix addr "0x" = true
  · unfold trimPrefix at htail
    rw [if_pos hp, String.toList_ofList] at htail
    rw [← take_append_drop "0x".toList.length addr.toList, mem_append] at hch
    rcases hch with hch | hch
    · -- inside the prefix itself
      rw [hasPrefix, isPrefixOf_iff_prefix] at hp
      rw [← prefix_iff_eq_take.mp hp] at hch
      have hpre : ("0x".toList.all fun ch => !isSpace ch) = true := by decide
      simpa using all_eq_true.mp hpre ch hch
    · exact htail ch hch
  · unfold trimPrefix at htail
    rw [if_neg hp] at htail
    exact htail ch hch

/-! ## Cross-organization isolation -/

/-- The address strings of an `eth_getLogs` filter, as the client wrote them. -/
def filterAddressStrings (filter : List (String × Json)) : List String :=
  match filter.lookup "address" with
  | some (.str addr) => [addr]
  | some (.arr items) => items.filterMap Json.asString
  | _ => []

variable {a : String}

theorem toLower_mem_extractGetLogsAddresses {filter : List (String × Json)}
    (h : a ∈ filterAddressStrings filter) (hne : a ≠ "") :
    toLower a ∈ extractGetLogsAddresses filter := by
  unfold filterAddressStrings at h
  unfold extractGetLogsAddresses
  generalize filter.lookup "address" = field at h ⊢
  split at h
  · rename_i addr
    obtain rfl := mem_singleton.mp h
    simp [hne]
  · rename_i items
    obtain ⟨item, hitem, hstr⟩ := mem_filterMap.mp h
    refine mem_filterMap.mpr ⟨item, hitem, ?_⟩
    cases item <;> simp_all [Json.asString]
  · simp at h

/-- An address an `eth_getLogs` filter may name: owned by one of the caller's
organizations and explicitly granted, or an unowned precompile. -/
def LogAddressAllowed (store : Store) (orgs : List String) (perms : EffectivePermissions)
    (a : String) : Prop :=
  (∃ owner ∈ orgs, owner ≠ "" ∧ store.getContractOwnerOrgID (trimLower a) = .ok owner ∧
      perms.isContractRegistered a = true) ∨
    (store.getContractOwnerOrgID (trimLower a) = .ok "" ∧
      isPrecompileAddress (trimLower a) = true)

/-- Isolation of one request: with the caller's active organizations `orgs`
(restricted to the scope), the target is unowned or owned by one of them, and
every address of an `eth_getLogs` filter is allowed under the permissions of the
evaluated organization. -/
def CrossOrgIsolated (c : AccessController) (req : AccessCheckRequest)
    (scope : Option String) : Prop :=
  ∃ user orgs, c.store.getUserByExternalID req.userExternalID = .ok (some user) ∧
    scopedUserOrgIDs c.store scope user.id = .ok orgs ∧
    (trimSpace req.targetAddress ≠ "" →
      ∃ owner, c.store.getContractOwnerOrgID (trimLower req.targetAddress) = .ok owner ∧
        (owner = "" ∨ owner ∈ orgs)) ∧
    (req.effectiveMethod = "eth_getLogs" →
      ∃ org oc perms filter, resolveOrgContextForRequest c req scope user = .ok (org, oc) ∧
        permissionsIn c req.bypassCache user.id org.id = .ok perms ∧
        firstObject req.params = some filter ∧
        ∀ a ∈ filterAddressStrings filter, trimSpace a ≠ "" →
          LogAddressAllowed c.store orgs perms a)

theorem logAddressAllowed_of_validated {c : AccessController} {oc : OrgContext c.store}
    {perms : EffectivePermissions} (hne : trimSpace a ≠ "")
    (hscope : oc.checkAddressInScope (toLower a) = .ok ())
    (hvalid : validateGetLogsAddress c perms (toLower a) = .ok ()) :
    LogAddressAllowed c.store oc.userOrgIDs perms a := by
  have hkey : trimLower (toLower a) ≠ "" := by
    rw [trimLower_toLower]
    exact trimLower_ne_empty hne
  obtain ⟨owner, howner, hcases⟩ := OrgContext.checkAddressInScope_ok hscope hkey
  rw [trimLower_toLower] at howner hcases
  rcases hcases with ⟨hnone, hpre⟩ | ⟨howned, hmem⟩
  · exact .inr ⟨hnone ▸ howner, hpre⟩
  · rcases validateGetLogsAddress_ok hvalid with hreg | ⟨hunowned, hpre⟩ | hdefault
    · refine .inl ⟨owner, hmem, howned, howner, ?_⟩
      simpa [EffectivePermissions.isContractRegistered] using hreg
    · -- a precompile string is its own key, so the two owner lookups agree
      have hself : trimLower (toLower a) = toLower a := by
        unfold trimLower
        rw [trimSpace_of_isPrecompileAddress hpre, toLower_toLower]
      rw [← hself, trimLower_toLower, howner] at hunowned
      exact absurd (Except.ok.inj hunowned) howned
    · rcases OrgContext.checkDefaultClaimsAllowed_ok hdefault hkey with hfalse | ⟨hnone, -⟩
      · exact absurd hfalse (by simp)
      · rw [trimLower_toLower, howner] at hnone
        exact absurd (Except.ok.inj hnone) howned

/-- **Cross-organization isolation.** An allowed request of a signed-in caller,
for a method that is not chain metadata, touches no address another organization
owns. No phase that ends the check early comes before the ownership check of the
target: the organization context is built first, and it cannot be built for a
foreign target. -/
theorem checkAccess_cross_org_isolation (c : AccessController) (req : AccessCheckRequest)
    (scope : Option String) (hauth : req.userExternalID ≠ "")
    (hmeta : isOrgFreeMetadataMethod req.method = false)
    (hallowed : (checkAccess c req scope).Allows) : CrossOrgIsolated c req scope := by
  obtain ⟨user, org, oc, huser, hctx, hrun⟩ := checkAccess_allows hallowed hauth hmeta
  obtain ⟨hnew, -⟩ := resolveOrgContextForRequest_ok hctx
  obtain ⟨horgs, htarget⟩ := newOrgContext_ok hnew
  refine ⟨user, oc.userOrgIDs, huser, horgs, fun hne => ?_, fun hlogs => ?_⟩
  · obtain ⟨owner, howner, hmember⟩ := htarget (trimLower_ne_empty hne)
    rw [trimLower_trimLower] at howner
    exact ⟨owner, howner, hmember⟩
  · obtain ⟨perms, hperms, hcase⟩ := checkWithResolvedOrg_allows hrun
    rcases hcase with ⟨-, hvalid⟩ | ⟨hother, -⟩
    · obtain ⟨filter, hfilter, haddrs⟩ := validateGetLogsWithOrgContext_ok hvalid
      refine ⟨org, oc, perms, filter, hctx, hperms, hfilter, fun a ha hne => ?_⟩
      have hne' : a ≠ "" := by
        rintro rfl
        exact hne trimSpace_empty
      obtain ⟨hscope, hval⟩ := haddrs _ (toLower_mem_extractGetLogsAddresses ha hne')
      exact logAddressAllowed_of_validated hne hscope hval
    · exact absurd hlogs hother

/-! ### A sample deployment

One signed-in user, a member of two organizations. `sampleOwned` is a contract of
`org-o`, granted to the user there; `samplePlanned` is an address `org-o` planned
to deploy to. The deploy claim is held in `org-p` only. -/

def sampleOwned : String := "0xaa"

def samplePlanned : String := "0xbb"

def sampleStore : Store where
  getUserByExternalID id :=
    .ok (if id = "did:alice" then some { id := "alice", externalID := id, kyc := true } else none)
  listActiveUserMembershipsWithDetails _ :=
    .ok [{ group := some { id := "group-o", orgID := "org-o" } },
         { group := some { id := "group-p", orgID := "org-p" } }]
  getOrganization id := .ok (some { id := id })
  getOrganizationBySlug _ := .ok none
  getContractOwnerOrgID a :=
    .ok (if a = sampleOwned ∨ a = samplePlanned then "org-o" else "")
  isAddressPreregistered orgID a := .ok (orgID = "org-o" ∧ a = samplePlanned)
  getContractDeployerByAddress _ := .ok none
  getGroupAccess _ := .ok none
  getLinkedEthAddresses _ := .ok []
  getContractByAddress _ _ := .ok none
  isAddressOwnedByOrg _ _ := .ok false
  isOrgAdmin := none

def samplePermissions (orgID : String) : EffectivePermissions :=
  if orgID = "org-o" then
    { allowedMethods := ["eth_call", "eth_getLogs"], contractAccess := [(sampleOwned, {})] }
  else { allowedMethods := ["eth_call"], claims := [.deploy] }

def sampleController : AccessController where
  store := sampleStore
  registry := {}
  abi := { decodeCall := fun _ => .error "no ABI" }
  cacheGet := fun _ _ => none
  resolvePermissions := fun _ orgID => .ok (samplePermissions orgID)

/-- Alice asks for the logs of the granted contract and of a precompile. -/
def sampleLogsRequest : AccessCheckRequest where
  userExternalID := "did:alice"
  method := "eth_getLogs"
  params := [.obj [("address", .arr [.str sampleOwned, .str "0x1"])]]
  targetAddress := sampleOwned

theorem sampleLogsRequest_isolated :
    (checkAccess sampleController sampleLogsRequest none).Allows ∧
      CrossOrgIsolated sampleController sampleLogsRequest none := by
  have hallowed : (checkAccess sampleController sampleLogsRequest none).Allows := by
    decide +kernel
  exact ⟨hallowed, checkAccess_cross_org_isolation sampleController sampleLogsRequest none
    (by decide) (by decide +kernel) hallowed⟩

/-! ## Entitlement in the owning organization -/

section Entitlement

variable (c : AccessController) (bypassCache : Bool)

/-- The permissions resolved for an organization list contracts of that
organization only. -/
def PermissionsAreLocal : Prop :=
  ∀ userID orgID perms a, permissionsIn c bypassCache userID orgID = .ok perms →
    perms.isContractRegistered a = true →
    c.store.getContractOwnerOrgID (trimLower a) = .ok orgID

/-- The user has an explicit entry for the target in the organization. -/
def hasEntryIn (userID orgID target : String) : Bool :=
  (permissionsIn c bypassCache userID orgID).toOption.any (·.isContractRegistered target)

/-- The user holds the deploy or the admin claim in the organization. -/
def holdsOperationalClaimIn (userID orgID : String) : Bool :=
  (permissionsIn c bypassCache userID orgID).toOption.any fun perms =>
    hasClaim perms.claims .deploy || hasClaim perms.claims .admin

def preregisteredIn (orgID target : String) : Bool :=
  (c.store.isAddressPreregistered orgID (toLower target)).toOption == some true

def isDeployerOf (userID target : String) : Bool :=
  (c.store.getContractDeployerByAddress (toLower target)).toOption == some (some userID)

/-- Entitlement by what the user holds in the organization itself. -/
def EntitledIn (userID orgID target : String) : Prop :=
  hasEntryIn c bypassCache userID orgID target = true ∨
    (preregisteredIn c orgID target = true ∧
      holdsOperationalClaimIn c bypassCache userID orgID = true) ∨
    isDeployerOf c userID target = true

instance (userID orgID target : String) :
    Decidable (EntitledIn c bypassCache userID orgID target) :=
  inferInstanceAs (Decidable (_ ∨ _ ∧ _ ∨ _))

/-- The organization a request on a target of `owner` is evaluated in: the one it
names by id or slug, else the owner. -/
def evaluatedOrg (req : AccessCheckRequest) (owner : String) :
    Except String (Option Organization) :=
  if req.orgID ≠ "" then c.store.getOrganization req.orgID
  else if req.orgSlug ≠ "" ∧ req.orgSlug ≠ "default" then
    c.store.getOrganizationBySlug req.orgSlug
  else c.store.getOrganization owner

/-- The request cannot borrow a claim of another organization: it is evaluated in
the owning organization, or the target is not planned there, or what it would
borrow is held there anyway. -/
def OwnerDecides (req : AccessCheckRequest) (userID owner : String) : Prop :=
  (evaluatedOrg c req owner).map (Option.map (·.id)) = .ok (some owner) ∨
    preregisteredIn c owner req.targetAddress = false ∨
    hasEntryIn c bypassCache userID owner req.targetAddress = true ∨
    holdsOperationalClaimIn c bypassCache userID owner = true ∨
    isDeployerOf c userID req.targetAddress = true

variable {c bypassCache}

variable {org : Organization} {req : AccessCheckRequest} {scope : Option String} {user : User}
  {owner : String}

theorem memberOrg_ok {orgs : List String} {found : Option Organization}
    (h : memberOrg orgs found = .ok org) : found = some org := by
  cases found with
  | none => cases h
  | some o =>
    simp only [memberOrg] at h
    split at h
    · rw [Except.ok.inj h]
    · cases h

theorem evaluatedOrg_of_resolved {oc : OrgContext c.store}
    (hctx : resolveOrgContextForRequest c req scope user = .ok (org, oc))
    (htarget : trimLower req.targetAddress ≠ "")
    (howner : c.store.getContractOwnerOrgID (trimLower req.targetAddress) = .ok owner)
    (hne : owner ≠ "") : evaluatedOrg c req owner = .ok (some org) := by
  obtain ⟨hnew, hselect⟩ := resolveOrgContextForRequest_ok hctx
  have horg : c.store.getOrganization owner = .ok oc.org :=
    newOrgContext_org hnew htarget (by rwa [trimLower_trimLower]) hne
  unfold selectOrg at hselect
  unfold evaluatedOrg
  split at hselect
  · rename_i hid
    rw [if_pos hid]
    obtain ⟨found, hfound, hmember⟩ := bind_ok_cases hselect
    rw [orFail_ok hfound, memberOrg_ok hmember]
  · rename_i hid
    rw [if_neg hid]
    split at hselect
    · rename_i hslug
      rw [if_pos hslug]
      obtain ⟨found, hfound, hmember⟩ := bind_ok_cases hselect
      rw [orFail_ok hfound, memberOrg_ok hmember]
    · rename_i hslug
      rw [if_neg hslug, horg]
      split at hselect
      · rename_i o ho
        rw [ho, Except.ok.inj hselect]
      · rename_i hnone
        -- without a record of the owner the caller's only organization is used,
        -- and that is the owner again
        split at hselect
        · rename_i single hsingle
          obtain ⟨owner', howner', hmem⟩ := (newOrgContext_ok hnew).2 htarget
          rw [trimLower_trimLower, howner] at howner'
          obtain rfl := Except.ok.inj howner'
          have hself : owner = single := by
            rcases hmem with hempty | hmem
            · exact absurd hempty hne
            · rw [hsingle] at hmem
              exact mem_singleton.mp hmem
          obtain ⟨found, hfound, hrest⟩ := bind_ok_cases hselect
          have hfound' := orFail_ok hfound
          rw [← hself, horg, hnone] at hfound'
          obtain rfl := Except.ok.inj hfound'
          cases hrest
        · cases hselect

theorem any_permissionsIn {userID orgID : String} {perms : EffectivePermissions}
    {p : EffectivePermissions → Bool}
    (hperms : permissionsIn c bypassCache userID orgID = .ok perms) :
    (permissionsIn c bypassCache userID orgID).toOption.any p = p perms := by
  rw [hperms]
  rfl

/-- What the contract gate established about an owned target, in terms of the
evaluated organization. -/
theorem gate_owned (hauth : req.userExternalID ≠ "")
    (hmeta : isOrgFreeMetadataMethod req.method = false)
    (hlogs : req.effectiveMethod ≠ "eth_getLogs")
    (hcall : classifyOperation req.effectiveMethod req.params ≠ some .deploy)
    (htarget : trimSpace req.targetAddress ≠ "") (hallowed : (checkAccess c req scope).Allows)
    (huser : c.store.getUserByExternalID req.userExternalID = .ok (some user))
    (howner : c.store.getContractOwnerOrgID (trimLower req.targetAddress) = .ok owner)
    (hne : owner ≠ "") :
    ∃ org, evaluatedOrg c req owner = .ok (some org) ∧
      (hasEntryIn c req.bypassCache user.id org.id req.targetAddress = true ∨
        (preregisteredIn c owner req.targetAddress = true ∧
          holdsOperationalClaimIn c req.bypassCache user.id org.id = true) ∨
        isDeployerOf c user.id req.targetAddress = true) := by
  obtain ⟨user', org, oc, huser', hctx, hrun⟩ := checkAccess_allows hallowed hauth hmeta
  obtain rfl : user = user' := by
    rw [huser] at huser'
    exact Option.some.inj (Except.ok.inj huser')
  have hkey := trimLower_ne_empty htarget
  refine ⟨org, evaluatedOrg_of_resolved hctx hkey howner hne, ?_⟩
  obtain ⟨perms, hperms, hcase⟩ := checkWithResolvedOrg_allows hrun
  rcases hcase with ⟨hgetLogs, -⟩ | ⟨-, htargeted⟩
  · exact absurd hgetLogs hlogs
  · have hraw : req.targetAddress ≠ "" := by
      intro hempty
      rw [hempty] at htarget
      exact htarget trimSpace_empty
    obtain ⟨oc', -, hgate⟩ := checkTargetedRequest_owned (htargeted hcall) hraw howner hne
    rcases validateContractAccess_ok hgate hkey howner hne with hentry | hplanned | hdeployer
    · exact .inl (by rw [hasEntryIn, any_permissionsIn hperms]; exact hentry)
    · obtain ⟨owner', howner', -, -, hpre, hclaim⟩ := hplanned
      rw [trimLower_toLower, howner] at howner'
      obtain rfl := Except.ok.inj howner'
      refine .inr (.inl ⟨by rw [preregisteredIn, hpre]; rfl, ?_⟩)
      rw [holdsOperationalClaimIn, any_permissionsIn hperms, Bool.or_eq_true]
      exact hclaim
    · exact .inr (.inr (by rw [isDeployerOf, hdeployer]; simp [Except.toOption]))

/-- **Entitlement comes from the owning organization, unless a claim is borrowed.**
A request that passes the contract gate on a target owned by `owner` is backed by
what the caller holds in `owner` exactly when `OwnerDecides`. -/
theorem entitledIn_iff_ownerDecides (req : AccessCheckRequest) (scope : Option String)
    (user : User) (owner : String) (hlocal : PermissionsAreLocal c req.bypassCache)
    (hauth : req.userExternalID ≠ "") (hmeta : isOrgFreeMetadataMethod req.method = false)
    (hlogs : req.effectiveMethod ≠ "eth_getLogs")
    (hcall : classifyOperation req.effectiveMethod req.params ≠ some .deploy)
    (htarget : trimSpace req.targetAddress ≠ "")
    (hallowed : (checkAccess c req scope).Allows)
    (huser : c.store.getUserByExternalID req.userExternalID = .ok (some user))
    (howner : c.store.getContractOwnerOrgID (trimLower req.targetAddress) = .ok owner)
    (hne : owner ≠ "") :
    EntitledIn c req.bypassCache user.id owner req.targetAddress ↔
      OwnerDecides c req.bypassCache req user.id owner := by
  obtain ⟨org, heval, hgate⟩ :=
    gate_owned hauth hmeta hlogs hcall htarget hallowed huser howner hne
  -- an entry in the evaluated organization makes it the owner
  have hentry : hasEntryIn c req.bypassCache user.id org.id req.targetAddress = true →
      org.id = owner := by
    intro h
    cases hperms : permissionsIn c req.bypassCache user.id org.id with
    | error e => rw [hasEntryIn, hperms] at h; cases h
    | ok perms =>
      rw [hasEntryIn, any_permissionsIn hperms] at h
      have := hlocal _ _ _ _ hperms h
      rw [howner] at this
      exact (Except.ok.inj this).symm
  constructor
  · rintro (h | ⟨-, h⟩ | h)
    · exact .inr (.inr (.inl h))
    · exact .inr (.inr (.inr (.inl h)))
    · exact .inr (.inr (.inr (.inr h)))
  · rintro (hsame | hpre | h | h | h)
    · have hid : org.id = owner := by
        rw [heval] at hsame
        exact Option.some.inj (Except.ok.inj hsame)
      rw [hid] at hgate
      exact hgate
    · rcases hgate with h | ⟨h, -⟩ | h
      · exact .inl (hentry h ▸ h)
      · rw [hpre] at h
        cases h
      · exact .inr (.inr h)
    · exact .inl h
    · rcases hgate with h' | ⟨h', -⟩ | h'
      · exact .inl (hentry h' ▸ h')
      · exact .inr (.inl ⟨h', h⟩)
      · exact .inr (.inr h')
    · exact .inr (.inr h)

end Entitlement

theorem samplePermissions_local : PermissionsAreLocal sampleController false := by
  intro userID orgID perms a hperms hreg
  obtain rfl : samplePermissions orgID = perms := Except.ok.inj hperms
  unfold samplePermissions at hreg
  by_cases horg : orgID = "org-o"
  · subst horg
    have hkey : toLower a = sampleOwned := by
      by_contra hne
      simp [EffectivePermissions.isContractRegistered, lookup_cons,
        beq_eq_false_iff_ne.mpr hne] at hreg
    rw [← trimLower_toLower, hkey]
    decide +kernel
  · rw [if_neg horg] at hreg
    simp [EffectivePermissions.isContractRegistered] at hreg

/-- Alice calls the granted contract, without naming an organization. -/
def sampleCallRequest : AccessCheckRequest where
  userExternalID := "did:alice"
  method := "eth_call"
  params := [.obj [("to", .str sampleOwned)]]
  targetAddress := sampleOwned

theorem sampleCallRequest_entitled :
    EntitledIn sampleController false "alice" "org-o" sampleOwned ↔
      OwnerDecides sampleController false sampleCallRequest "alice" "org-o" :=
  entitledIn_iff_ownerDecides sampleCallRequest none
    { id := "alice", externalID := "did:alice", kyc := true } "org-o" samplePermissions_local
    (by decide) (by decide +kernel) (by decide) (by decide +kernel) (by decide +kernel)
    (by decide +kernel) rfl (by decide +kernel) (by decide)

/-- Alice calls the planned address of `org-o`, naming `org-p`. -/
def sampleBorrowRequest : AccessCheckRequest where
  userExternalID := "did:alice"
  orgID := "org-p"
  method := "eth_call"
  params := [.obj [("to", .str samplePlanned)]]
  targetAddress := samplePlanned

/-- The deploy claim Alice holds in `org-p` opens an address `org-o` planned,
although nothing in `org-o` entitles them to it. -/
theorem preregistered_opened_by_foreign_claim :
    (checkAccess sampleController sampleBorrowRequest none).Allows ∧
      sampleStore.getContractOwnerOrgID (trimLower samplePlanned) = .ok "org-o" ∧
      PermissionsAreLocal sampleController false ∧
      ¬ EntitledIn sampleController false "alice" "org-o" samplePlanned :=
  ⟨by decide +kernel, by decide +kernel, samplePermissions_local, by decide +kernel⟩

end PrivacySuite.Rbac
