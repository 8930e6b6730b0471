import PrivacySuite.Rbac.MembershipRights

/-!
# Memberships, more of them and in another order

`computePermissions` against tables that stay the same while it runs: the permissions
of a member are the merge of the rows of the member's groups, in the order the
memberships are listed in. Two questions are asked of it: whether a right survives
another group, and whether it depends on the order.
-/

namespace PrivacySuite.Rbac

open Go Resolver Concurrency List

/-! ## Tables -/

/-- The rows of the groups: access by group, grants by group, contracts by id. -/
structure GrantTables where
  access : String → Option GroupAccessRow
  grants : String → List ContractGrant
  contracts : String → Option ContractRow

namespace GrantTables

variable (t : GrantTables)

def rowsOf {α : Type} (find : String → Option α) (ids : List String) : List (String × α) :=
  ids.filterMap fun id => (find id).map (Prod.mk id)

def answers (memberships : List OrgMembership) (clock : Time) : (q : Query) → Answer q
  | .listUserMembershipsInOrg _ _ => .ok memberships
  | .listContracts _ => .ok []
  | .getGroupAccessBatch groupIDs => .ok (rowsOf t.access groupIDs)
  | .listContractGrantsBatch groupIDs => .ok (groupIDs.map fun id => (id, t.grants id))
  | .getContractsByIDs contractIDs => .ok (rowsOf t.contracts contractIDs)
  | .now => clock

def permissions (r : Resolver) (userID orgID : String) (clock : Time)
    (memberships : List OrgMembership) : Except String ResolvedPermissions :=
  (computePermissions r userID orgID).run.answeredBy (t.answers memberships clock)

def batchFor (groupID : String) : GroupPermsBatch where
  access := rowsOf t.access [groupID]
  grants := [(groupID, t.grants groupID)]
  contracts := rowsOf t.contracts ((t.grants groupID).map (·.contractID))

def groupSet (r : Resolver) (groupID : String) : GroupPermSet :=
  groupPerms r (t.batchFor groupID) groupID

def groupSets (r : Resolver) (memberships : List OrgMembership) : List GroupPermSet :=
  memberships.map fun m => t.groupSet r m.group.id

end GrantTables

/-! ## Batches -/

open GrantTables

theorem lookup_rowsOf {α : Type} {find : String → Option α} {ids : List String} {id : String}
    (h : id ∈ ids) : (rowsOf find ids).lookup id = find id := by
  unfold rowsOf
  induction ids with
  | nil => cases h
  | cons first rest ih =>
    by_cases hfirst : first = id
    · subst hfirst
      cases hfind : find first with
      | some row => simp [hfind]
      | none =>
        refine lookup_eq_none_of_keys fun entry hentry => ?_
        obtain ⟨key, -, hkey⟩ := mem_filterMap.mp hentry
        obtain ⟨row, hrow, rfl⟩ := Option.map_eq_some_iff.mp hkey
        rintro rfl
        rw [hfind] at hrow
        cases hrow
    · have hrest : id ∈ rest := (mem_cons.mp h).resolve_left fun heq => hfirst heq.symm
      have hne : (id == first) = false := beq_false_of_ne (Ne.symm hfirst)
      rw [filterMap_cons]
      cases find first with
      | none => exact ih hrest
      | some row => simpa [lookup_cons, hne] using ih hrest

theorem lookup_map_pair {α : Type} (f : String → α) {ids : List String} {id : String}
    (h : id ∈ ids) : (ids.map fun id => (id, f id)).lookup id = some (f id) := by
  have hrows : (ids.map fun id => (id, f id)) = rowsOf (fun id => some (f id)) ids := by
    simp [rowsOf]
  rw [hrows, lookup_rowsOf h]

theorem mem_foldl_distinct {α : Type} (key : α → String) (xs : List α) (acc : List String)
    (k : String) :
    k ∈ xs.foldl (fun ids x => if ids.contains (key x) then ids else ids ++ [key x]) acc ↔
      k ∈ acc ∨ ∃ x ∈ xs, key x = k := by
  induction xs generalizing acc with
  | nil => simp
  | cons x xs ih =>
    rw [foldl_cons, ih]
    by_cases hmem : acc.contains (key x) = true
    · rw [if_pos hmem]
      rw [contains_iff_mem] at hmem
      constructor
      · rintro (hacc | ⟨y, hy, hk⟩)
        · exact Or.inl hacc
        · exact Or.inr ⟨y, mem_cons_of_mem x hy, hk⟩
      · rintro (hacc | ⟨y, hy, rfl⟩)
        · exact Or.inl hacc
        · rcases mem_cons.mp hy with rfl | hrest
          · exact Or.inl hmem
          · exact Or.inr ⟨y, hrest, rfl⟩
    · rw [if_neg hmem]
      rw [mem_append, mem_singleton, or_assoc, exists_mem_cons_iff, @eq_comm _ k]

theorem mem_membershipGroupIDs {memberships : List OrgMembership} {m : OrgMembership}
    (h : m ∈ memberships) : m.group.id ∈ membershipGroupIDs memberships :=
  (mem_foldl_distinct _ _ _ _).mpr (Or.inr ⟨m, h, rfl⟩)

theorem grantedAccess_congr {claims : List Claim}
    {contracts contracts' : List (String × ContractRow)}
    {grants : List ContractGrant}
    (h : ∀ grant ∈ grants, contracts.lookup grant.contractID = contracts'.lookup grant.contractID) :
    grantedAccess claims contracts grants = grantedAccess claims contracts' grants := by
  refine foldl_ext _ _ _ fun result grant hgrant => ?_
  rw [h grant hgrant]

theorem groupPerms_batch {t : GrantTables} {r : Resolver} {groupIDs : List String} {id : String}
    (h : id ∈ groupIDs) :
    groupPerms r
        { access := rowsOf t.access groupIDs
          grants := groupIDs.map fun id => (id, t.grants id)
          contracts := rowsOf t.contracts (grantedContractIDs groupIDs
            (groupIDs.map fun id => (id, t.grants id))) } id =
      t.groupSet r id := by
  have hcontracts : grantedAccess (((t.access id).map (·.claims)).getD [])
        (rowsOf t.contracts (grantedContractIDs groupIDs
          (groupIDs.map fun id => (id, t.grants id)))) (t.grants id) =
      grantedAccess (((t.access id).map (·.claims)).getD [])
        (rowsOf t.contracts ((t.grants id).map (·.contractID))) (t.grants id) := by
    refine grantedAccess_congr fun grant hgrant => ?_
    have hself : grant.contractID ∈ (t.grants id).map (·.contractID) := mem_map_of_mem hgrant
    have hall : grant.contractID ∈ grantedContractIDs groupIDs
        (groupIDs.map fun id => (id, t.grants id)) := by
      refine (mem_foldl_distinct _ _ _ _).mpr (Or.inr ⟨grant, ?_, rfl⟩)
      refine mem_flatMap.mpr ⟨id, h, ?_⟩
      rw [lookup_map_pair t.grants h]
      exact hgrant
    rw [lookup_rowsOf hself, lookup_rowsOf hall]
  have hone : id ∈ [id] := mem_cons_self
  unfold groupSet batchFor groupPerms
  simp only [lookup_rowsOf h, lookup_rowsOf hone, lookup_map_pair t.grants h,
    lookup_cons_self, Option.getD_some]
  rw [hcontracts]

section Answered

variable {t : GrantTables} {r : Resolver} {userID orgID : String} {clock : Time}
  {memberships : List OrgMembership}

theorem loadGroupPerms_answered (groupIDs : List String) :
    (loadGroupPerms groupIDs true).run.answeredBy (t.answers memberships clock) =
      .ok { access := rowsOf t.access groupIDs
            grants := groupIDs.map fun id => (id, t.grants id)
            contracts := rowsOf t.contracts (grantedContractIDs groupIDs
              (groupIDs.map fun id => (id, t.grants id))) } := by
  have hcontracts : ∀ ids, (contractsFor ids).run.answeredBy (t.answers memberships clock) =
      .ok (rowsOf t.contracts ids) := by
    intro ids
    unfold contractsFor
    split
    · rename_i hnil
      rw [hnil]
      rfl
    · rfl
  unfold loadGroupPerms
  rw [Reads.answeredBy_ok_bind (a := rowsOf t.access groupIDs) rfl]
  show (withGrants groupIDs _).run.answeredBy _ = _
  unfold withGrants
  rw [Reads.answeredBy_ok_bind (a := groupIDs.map fun id => (id, t.grants id)) rfl,
    Reads.answeredBy_ok_bind (hcontracts _)]
  rfl

theorem permissions_of_members (hno : ∀ m ∈ memberships, m.group.isOrgAdmin = false) :
    ∃ p, t.permissions r userID orgID clock memberships = .ok p ∧
      p.toEffectivePermissions = merged (t.groupSets r memberships) := by
  unfold permissions computePermissions
  rw [Reads.answeredBy_ok_bind (a := memberships) rfl]
  by_cases hnil : memberships = []
  · rw [if_pos hnil, hnil]
    exact ⟨_, rfl, rfl⟩
  · have hadmin : (memberships.any fun m => m.group.isOrgAdmin) = false := by
      rw [any_eq_false]
      intro m hm
      rw [hno m hm]
      exact Bool.false_ne_true
    rw [if_neg hnil, hadmin, if_neg Bool.false_ne_true]
    unfold computeMemberPermissions
    rw [Reads.answeredBy_ok_bind (loadGroupPerms_answered _)]
    have hsets : (memberships.map fun m => groupPerms r
        { access := rowsOf t.access (membershipGroupIDs memberships)
          grants := (membershipGroupIDs memberships).map fun id => (id, t.grants id)
          contracts := rowsOf t.contracts (grantedContractIDs (membershipGroupIDs memberships)
            ((membershipGroupIDs memberships).map fun id => (id, t.grants id))) } m.group.id) =
        t.groupSets r memberships :=
      map_congr_left fun m hm => groupPerms_batch (mem_membershipGroupIDs hm)
    simp only [hsets]
    exact ⟨_, rfl, rfl⟩

end Answered

theorem lowerKeys_groupSets (t : GrantTables) (r : Resolver) (memberships : List OrgMembership) :
    ∀ set ∈ t.groupSets r memberships, LowerKeys set.contractAccess := by
  intro set hset
  obtain ⟨m, -, rfl⟩ := mem_map.mp hset
  exact lowerKeys_grantedAccess _ _ _

/-! ## Another group -/

/-- What stands for a method, a call or an event after a change of the groups admits what
stood before it, and a precompile that gets its first entry stays open. -/
structure RightsKept (j : Judge) (before after : List GroupPermSet) : Prop where
  methods : ∀ name, j.controller.registry.isForwardableMethod name = true →
    name ∈ spellings (toLower name) (before.map (·.allowedMethods)) →
      name ∈ spellings (toLower name) (after.map (·.allowedMethods)) ∨
        Starred after ∧ j.controller.registry.inWildcardExpansion name = true
  precompiles : ∀ address, isPrecompileAddress (toLower address) = true →
    entriesAt (toLower address) before = [] → entriesAt (toLower address) after ≠ [] →
      functionLists (entriesAt (toLower address) after) = none
  calls : ∀ req org (s : Selector) lists lists' params,
    functionLists (entriesAt (toLower req.targetAddress) before) = some lists →
    functionLists (entriesAt (toLower req.targetAddress) after) = some lists' →
    (standing selectorKey FunctionRule.paramRules s.text lists).head? = some params →
    AdmitsCall j req org s params →
      ∃ params', (standing selectorKey FunctionRule.paramRules s.text lists').head? = some params' ∧
        AdmitsCall j req org s params'
  events : ∀ address (t : Topic) topics data,
    (∀ e ∈ entriesAt (toLower address) after, isWildcard e.eventRules = false) →
    ∀ params ∈ standing topicKey EventRule.paramRules t.text
        (allowlists ((entriesAt (toLower address) before).map (·.eventRules))),
      AdmitsLog j ⟨address, t.text :: topics, data⟩ params →
        ∃ params' ∈ standing topicKey EventRule.paramRules t.text
            (allowlists ((entriesAt (toLower address) after).map (·.eventRules))),
          AdmitsLog j ⟨address, t.text :: topics, data⟩ params'

section Kept

variable {j : Judge} {before after : List GroupPermSet} {req : AccessCheckRequest}
  {org : Organization} {selector : Option Selector}

theorem entriesAt_subset (hsub : before ⊆ after) (addr : String) :
    entriesAt addr before ⊆ entriesAt addr after := by
  intro e he
  obtain ⟨set, hset, hlookup⟩ := mem_filterMap.mp he
  exact mem_filterMap.mpr ⟨set, hsub hset, hlookup⟩

/-- Further entries close nothing that is open. -/
theorem functionLists_eq_none_of_subset {entries entries' : List ContractAccess}
    (hsub : entries ⊆ entries') (h : functionLists entries = none) :
    functionLists entries' = none := by
  simp only [functionLists, mapM_eq_none] at h ⊢
  obtain ⟨e, he, hopen⟩ := h
  exact ⟨e, hsub he, hopen⟩

theorem RightsKept.givesCall (hkept : RightsKept j before after) (hsub : before ⊆ after)
    (h : GivesCall j req org (entriesAt (toLower req.targetAddress) before) selector) :
    GivesCall j req org (entriesAt (toLower req.targetAddress) after) selector := by
  have hentries := entriesAt_subset hsub (toLower req.targetAddress)
  have hopen := functionLists_eq_none_of_subset hentries
  by_cases hafter : entriesAt (toLower req.targetAddress) after = []
  · rw [hafter] at hentries ⊢
    rwa [subset_nil.mp hentries] at h
  by_cases hbefore : entriesAt (toLower req.targetAddress) before = []
  · -- The first entry of a precompile.
    have hpre : isPrecompileAddress (toLower req.targetAddress) = true := by
      cases selector <;> simpa only [GivesCall, if_pos hbefore] using h
    have hfirst := hkept.precompiles _ hpre hbefore hafter
    cases selector <;> simp [GivesCall, hafter, hfirst]
  · cases selector with
    | none =>
      simp only [GivesCall, if_neg hbefore, if_neg hafter] at h ⊢
      exact fun hmethod => hopen (h hmethod)
    | some s =>
      simp only [GivesCall, if_neg hbefore, if_neg hafter] at h ⊢
      intro lists' hlists'
      cases hlists : functionLists (entriesAt (toLower req.targetAddress) before) with
      | none => cases hlists'.symm.trans (hopen hlists)
      | some lists =>
        obtain ⟨params, hhead, hadmits⟩ := h lists hlists
        exact hkept.calls req org s lists lists' params hlists hlists' hhead hadmits

theorem rightsKept_of_gives (hsub : before ⊆ after) (h : ∀ q, Gives j before q → Gives j after q) :
    RightsKept j before after where
  methods name hforward hlisted := (h (.method name) ⟨hforward, Or.inl hlisted⟩).2
  precompiles address hpre hbefore hafter := by
    -- A call without a selector is open to the precompile before.
    have hgives := h (.call { method := "eth_call", targetAddress := address } { id := "" } none)
    simp only [Gives, GivesCall, if_pos hbefore, if_neg hafter] at hgives
    exact hgives hpre (by simp [AccessCheckRequest.effectiveMethod])
  calls req org s lists lists' params hlists hlists' hhead hadmits := by
    have hne : entriesAt (toLower req.targetAddress) before ≠ [] := by
      intro hnil
      rw [hnil] at hlists
      obtain rfl := Option.some.inj hlists
      cases hhead
    have hne' : entriesAt (toLower req.targetAddress) after ≠ [] := fun hnil =>
      hne (subset_nil.mp (hnil ▸ entriesAt_subset hsub _))
    have hgives := h (.call req org (some s))
    simp only [Gives, GivesCall, if_neg hne, if_neg hne'] at hgives
    refine hgives (fun lists'' hlists'' => ?_) lists' hlists'
    obtain rfl := Option.some.inj (hlists.symm.trans hlists'')
    exact ⟨params, hhead, hadmits⟩
  events address t topics data hno params hparams hadmits := by
    rcases h (.event address t topics data) (Or.inr ⟨params, hparams, hadmits⟩) with
      ⟨e, he, hwild⟩ | hgives
    · cases hwild.symm.trans (hno e he)
    · exact hgives

end Kept

theorem rightsKept_iff (j : Judge) {before after : List GroupPermSet} (hsub : before ⊆ after) :
    (∀ q, Gives j before q → Gives j after q) ↔ RightsKept j before after := by
  have hentries := entriesAt_subset hsub
  refine ⟨rightsKept_of_gives hsub, fun hkept q => ?_⟩
  cases q with
  | method name =>
    rintro ⟨hforward, hlisted | ⟨⟨group, hset, hstar⟩, hwild⟩⟩
    · exact ⟨hforward, hkept.methods name hforward hlisted⟩
    · exact ⟨hforward, Or.inr ⟨⟨group, hsub hset, hstar⟩, hwild⟩⟩
  | claim claim => exact fun ⟨group, hset, hheld⟩ => ⟨group, hsub hset, hheld⟩
  | contract address =>
    rintro (hne | hpre)
    · exact Or.inl fun hnil => hne (subset_nil.mp (hnil ▸ hentries (toLower address)))
    · exact Or.inr hpre
  | contractClaim address claim => exact fun ⟨e, he, hclaim⟩ => ⟨e, hentries _ he, hclaim⟩
  | call req org selector => exact hkept.givesCall hsub
  | event address t topics data =>
    rintro (⟨e, he, hwild⟩ | ⟨params, hparams, hadmits⟩)
    · exact Or.inl ⟨e, hentries _ he, hwild⟩
    · by_cases hany : ∃ e ∈ entriesAt (toLower address) after, isWildcard e.eventRules = true
      · exact Or.inl hany
      · exact Or.inr
          (hkept.events address t topics data (by simpa using hany) params hparams hadmits)

/-- Everything a member may do is still allowed with another group in the list exactly
when the methods, the parameter rules of functions and the event rules that then stand
admit what those before it did: where several groups constrain one selector or one
topic, the first listed stands (and of two rules of the first group the last), unless
one of them is without parameter rules; and where a precompile gets its first entry,
the entry replaces the open access. -/
theorem another_group_only_adds_iff (t : GrantTables) (r : Resolver) (userID orgID : String)
    (clock : Time) (j : Judge) (pre post : List OrgMembership) (m : OrgMembership)
    (hno : ∀ x ∈ pre ++ m :: post, x.group.isOrgAdmin = false) :
    ∃ p p', t.permissions r userID orgID clock (pre ++ post) = .ok p ∧
      t.permissions r userID orgID clock (pre ++ m :: post) = .ok p' ∧
      ((∀ q, allows j p.toEffectivePermissions q = true →
          allows j p'.toEffectivePermissions q = true) ↔
        RightsKept j (t.groupSets r (pre ++ post)) (t.groupSets r (pre ++ m :: post))) := by
  have hsub : pre ++ post ⊆ pre ++ m :: post := by
    intro x hx
    rcases mem_append.mp hx with hpre | hpost
    · exact mem_append_left _ hpre
    · exact mem_append_right _ (mem_cons_of_mem m hpost)
  obtain ⟨p, hp, heq⟩ := @permissions_of_members t r userID orgID clock (pre ++ post)
    fun x hx => hno x (hsub hx)
  obtain ⟨p', hp', heq'⟩ := @permissions_of_members t r userID orgID clock _ hno
  refine ⟨p, p', hp, hp', ?_⟩
  have hsets : t.groupSets r (pre ++ post) ⊆ t.groupSets r (pre ++ m :: post) :=
    map_subset _ hsub
  rw [heq, heq', ← rightsKept_iff j hsets]
  refine forall_congr' fun q => ?_
  rw [allows_merged (lowerKeys_groupSets t r _), allows_merged (lowerKeys_groupSets t r _)]

/-! ### A transfer under two groups -/

def tokenContract : String := "0xcccccccccccccccccccccccccccccccccccccccc"

/-- `transferFrom(address,address,uint256)`. -/
def transferSelector : Selector := ⟨[0x23, 0xb8, 0x72, 0xdd], rfl⟩

/-- `Transfer(address,address,uint256)`. -/
def transferTopic : String := "0xddf252ad1be2c89b69c2b068fc378daa952ba7f163c4a11628f55a4df523b3ef"

/-- `Approval(address,address,uint256)`. -/
def approvalTopic : String := "0x8c5be1e5ebec7d5bd14f71427d1e84f3dd0314c0f7b2291e5b200ac8c7c3b925"

def tokenABI : String :=
  "[\x7b\"type\":\"function\",\"name\":\"transferFrom\",\"inputs\":
    [\x7b\"type\":\"address\"\x7d,\x7b\"type\":\"address\"\x7d,\x7b\"type\":\"uint256\"\x7d]\x7d]"

def evesAddress : List UInt8 := List.replicate 20 0xee

def bobsAddress : List UInt8 := List.replicate 20 0xb0

/-- Senders may move what is theirs and receivers what comes to them, readers may look at
balances, and writers may do what senders and readers do. -/
def tokenFunctions (groupID : String) : List FunctionRule :=
  if groupID = "receivers" then [⟨"0x23b872dd", [⟨1, "self"⟩]⟩]
  else if groupID = "senders" then [⟨"0x23b872dd", [⟨0, "self"⟩]⟩]
  else if groupID = "readers" then [⟨"0x70a08231", []⟩]
  else [⟨"0x23b872dd", [⟨0, "self"⟩]⟩, ⟨"0x70a08231", []⟩]

/-- Readers see the transfers to them, and writers all approvals. -/
def tokenEvents (groupID : String) : List EventRule :=
  if groupID = "readers" then [{ topic0 := transferTopic, paramRules := [⟨1, "self"⟩] }]
  else if groupID = "writers" then [{ topic0 := approvalTopic }]
  else []

def tokenRow (groupID : String) : GroupAccessRow where
  allowedMethods := if groupID = "readers" then ["eth_call"] else ["eth_sendTransaction"]
  claims := if groupID = "writers" then [.deploy] else []

def tokenTables : GrantTables where
  access id := some (tokenRow id)
  grants id := [{
    contractID := "token"
    functions := some (tokenFunctions id)
    eventRules := some { rules := tokenEvents id } }]
  contracts id := if id = "token" then some { address := tokenContract } else none

def memberOf (groupID : String) : OrgMembership where
  group := { id := groupID, orgID := "acme" }

def tokenStore : Store where
  getUserByExternalID _ := .ok none
  listActiveUserMembershipsWithDetails _ := .ok []
  getOrganization _ := .ok none
  getOrganizationBySlug _ := .ok none
  getContractOwnerOrgID _ := .ok "acme"
  isAddressPreregistered _ _ := .ok false
  getContractDeployerByAddress _ := .ok none
  getGroupAccess _ := .ok none
  getLinkedEthAddresses _ := .ok ["0x" ++ encodeHex evesAddress]
  getContractByAddress _ a := .ok (if a = tokenContract then some { abi := tokenABI } else none)
  isAddressOwnedByOrg _ _ := .ok true
  isOrgAdmin := none

/-- The arguments of `transferFrom`. -/
def decodeTransfer (arguments : List UInt8) : Except String (List DecodedArg) :=
  if arguments.length < 96 then .error "abi: length insufficient"
  else .ok [.address ("0x" ++ encodeHex ((arguments.take 32).drop 12)),
    .address ("0x" ++ encodeHex (((arguments.drop 32).take 32).drop 12)), .other "*big.Int"]

def tokenJudge : Judge where
  controller := {
    store := tokenStore
    registry := {}
    abi := { decodeCall := fun text =>
      if text ≠ tokenABI then .error "invalid ABI"
      else .ok fun selector =>
        if selector ≠ transferSelector.val then .error "no method with id" else .ok decodeTransfer }
    cacheGet := fun _ _ => none
    resolvePermissions := fun _ _ => .error "" }
  filter := {
    pkg := .ofABI tokenABI []
    profile := .standard
    perms := none
    userAddresses := ["0x" ++ encodeHex evesAddress]
    abiProvider := some ⟨fun a => if a = tokenContract then tokenABI else "", none⟩
    visCtx := none
    isAdminByContract := fun _ => false }

/-- Eve has something of Bob's sent to them. -/
def transferToEve : Request :=
  .call {
      userExternalID := "did:eve"
      method := "eth_call"
      targetAddress := tokenContract
      calldata := some (transferSelector.val ++ List.replicate 12 0 ++ bobsAddress ++
        List.replicate 12 0 ++ evesAddress ++ List.replicate 32 1) }
    { id := "acme" } (some transferSelector)

/-- Whether Eve may, as a member of these groups. -/
def tokenDecision (groupIDs : List String) (q : Request) : Except String Bool :=
  (tokenTables.permissions { cacheTTL := 0 } "eve" "acme" Time.zero (groupIDs.map memberOf)).map
    fun p => allows tokenJudge p.toEffectivePermissions q

/-- A receiver loses the transfer by becoming a sender as well. -/
theorem transfer_lost_with_another_group :
    tokenDecision ["receivers"] transferToEve = .ok true ∧
      tokenDecision ["senders", "receivers"] transferToEve = .ok false := by
  decide +kernel

/-- What a group has on the token. -/
def tokenEntry (groupID : String) : ContractAccess where
  claims := (tokenRow groupID).claims
  functions := some (tokenFunctions groupID)
  eventRules := some { rules := tokenEvents groupID }

theorem tokenTables_group (r : Resolver) (id : String) :
    (tokenTables.groupSet r id).allowedMethods = (tokenRow id).allowedMethods ∧
      (tokenTables.groupSet r id).contractAccess = [(tokenContract, tokenEntry id)] := by
  have hlower : toLower tokenContract = tokenContract := by decide +kernel
  simp [groupSet, batchFor, groupPerms, rowsOf, tokenTables, grantedAccess, mapSet, tokenEntry,
    hlower]

theorem entriesAt_token (r : Resolver) (groupIDs : List String) (addr : String) :
    entriesAt addr (tokenTables.groupSets r (groupIDs.map memberOf)) =
      if addr = tokenContract then groupIDs.map tokenEntry else [] := by
  unfold entriesAt groupSets
  by_cases haddr : addr = tokenContract <;>
    simp [Function.comp_def, memberOf, tokenTables_group, lookup_cons, haddr, beq_false_of_ne]

theorem methods_token (r : Resolver) (groupIDs : List String) :
    (tokenTables.groupSets r (groupIDs.map memberOf)).map (·.allowedMethods) =
      groupIDs.map fun id => (tokenRow id).allowedMethods := by
  simp [groupSets, memberOf, tokenTables_group]

/-- A reader loses nothing by becoming a writer as well. -/
theorem readers_stay_readers :
    ∃ p p', tokenTables.permissions { cacheTTL := 0 } "eve" "acme" Time.zero
          (["readers"].map memberOf) = .ok p ∧
      tokenTables.permissions { cacheTTL := 0 } "eve" "acme" Time.zero
          (["writers", "readers"].map memberOf) = .ok p' ∧
      ∀ q, allows tokenJudge p.toEffectivePermissions q = true →
        allows tokenJudge p'.toEffectivePermissions q = true := by
  obtain ⟨p, p', hp, hp', hiff⟩ := another_group_only_adds_iff tokenTables { cacheTTL := 0 } "eve"
    "acme" Time.zero tokenJudge [] (["readers"].map memberOf) (memberOf "writers") (by decide)
  have hbefore := entriesAt_token { cacheTTL := 0 } ["readers"]
  have hafter := entriesAt_token { cacheTTL := 0 } ["writers", "readers"]
  refine ⟨p, p', hp, hp', hiff.mpr
    (show RightsKept tokenJudge (tokenTables.groupSets { cacheTTL := 0 } (["readers"].map memberOf))
      (tokenTables.groupSets { cacheTTL := 0 } (["writers", "readers"].map memberOf)) from
      ⟨fun name _ hlisted => ?_, fun address hpre _ hne => ?_,
        fun req org s lists lists' params hlists hlists' hhead _ => ?_,
        fun address t topics data _ params hparams hadmits => ?_⟩)⟩
  · rw [methods_token] at hlisted ⊢
    obtain ⟨-, rfl⟩ : toLower "eth_call" = toLower name ∧ "eth_call" = name := by
      simpa [spellings, contenders, keyed, tokenRow, filter_cons, eq_comm] using hlisted
    exact Or.inl (by decide +kernel)
  · rw [hafter] at hne
    split_ifs at hne with haddr
    · rw [haddr] at hpre
      exact absurd hpre (by decide +kernel)
    · exact absurd rfl hne
  · rw [hbefore] at hlists
    rw [hafter] at hlists'
    split_ifs at hlists hlists' with haddr
    · obtain rfl := Option.some.inj hlists
      obtain rfl := Option.some.inj hlists'
      have hselector : toLower "0x70a08231" = s.text := by
        by_contra hne
        simp [standing, contenders, keyed, tokenFunctions, selectorKey, hne] at hhead
      rw [← hselector]
      exact ⟨[], by decide +kernel, Or.inl rfl⟩
    · obtain rfl := Option.some.inj hlists
      cases hhead
  · rw [hbefore] at hparams
    rw [hafter]
    split_ifs at hparams ⊢ with haddr
    · have htopic : toLower transferTopic = t.text := by
        by_contra hne
        simp [standing, contenders, keyed, tokenEntry, tokenEvents, topicKey, allowlists,
          LogFilter.eventRulesGetRules, hne] at hparams
      have hsame : standing topicKey EventRule.paramRules (toLower transferTopic)
            (allowlists ((["readers"].map tokenEntry).map (·.eventRules))) =
          standing topicKey EventRule.paramRules (toLower transferTopic)
            (allowlists ((["writers", "readers"].map tokenEntry).map (·.eventRules))) := by
        decide +kernel
      rw [← htopic, hsame] at hparams
      exact ⟨params, htopic ▸ hparams, hadmits⟩
    · cases hparams

/-! ## Another order -/

/-- The same methods, parameter rules and event rules stand in two orders, as far as any
method, call or log can tell. -/
structure SameStanding (j : Judge) (sets sets' : List GroupPermSet) : Prop where
  methods : ∀ name, j.controller.registry.isForwardableMethod name = true →
    ¬ (Starred sets ∧ j.controller.registry.inWildcardExpansion name = true) →
      (name ∈ spellings (toLower name) (sets.map (·.allowedMethods)) ↔
        name ∈ spellings (toLower name) (sets'.map (·.allowedMethods)))
  calls : ∀ req org (s : Selector) lists lists',
    functionLists (entriesAt (toLower req.targetAddress) sets) = some lists →
    functionLists (entriesAt (toLower req.targetAddress) sets') = some lists' →
      ((∃ params, (standing selectorKey FunctionRule.paramRules s.text lists).head? = some params ∧
          AdmitsCall j req org s params) ↔
        ∃ params, (standing selectorKey FunctionRule.paramRules s.text lists').head? = some params ∧
          AdmitsCall j req org s params)
  events : ∀ address (t : Topic) topics data,
    (∀ e ∈ entriesAt (toLower address) sets, isWildcard e.eventRules = false) →
      ((∃ params ∈ standing topicKey EventRule.paramRules t.text
            (allowlists ((entriesAt (toLower address) sets).map (·.eventRules))),
          AdmitsLog j ⟨address, t.text :: topics, data⟩ params) ↔
        ∃ params ∈ standing topicKey EventRule.paramRules t.text
            (allowlists ((entriesAt (toLower address) sets').map (·.eventRules))),
          AdmitsLog j ⟨address, t.text :: topics, data⟩ params)

/-- What is asked of a value that may be missing is the same for two values missing together
exactly when it is the same for them where both are there. -/
theorem givenOr_iff {α : Type} {P : α → Prop} {p q q' : Prop} [Decidable q] [Decidable q']
    {o o' : Option α} (hq : q ↔ q') (hnone : o = none ↔ o' = none)
    (hsame : q → ∀ x x', o = some x → o' = some x' → x = x') :
    ((if q then p else ∀ x, o = some x → P x) ↔ if q' then p else ∀ x, o' = some x → P x) ↔
      ∀ x x', o = some x → o' = some x' → (P x ↔ P x') := by
  by_cases h : q
  · rw [if_pos h, if_pos (hq.mp h)]
    exact iff_of_true Iff.rfl fun x x' hx hx' => by rw [hsame h x x' hx hx']
  · rw [if_neg h, if_neg (mt hq.mpr h)]
    cases o <;> cases o' <;> simp_all

theorem sameStanding_iff (j : Judge) {sets sets' : List GroupPermSet} (hperm : sets.Perm sets') :
    (∀ q, Gives j sets q ↔ Gives j sets' q) ↔ SameStanding j sets sets' := by
  have hentries : ∀ addr, (entriesAt addr sets).Perm (entriesAt addr sets') := fun addr =>
    hperm.filterMap _
  have hstar : Starred sets ↔ Starred sets' := by
    unfold Starred
    simp only [hperm.mem_iff]
  have hopen : ∀ addr, functionLists (entriesAt addr sets) = none ↔
      functionLists (entriesAt addr sets') = none := by
    intro addr
    simp only [functionLists, mapM_eq_none, (hentries addr).mem_iff]
  have hnil : ∀ addr, entriesAt addr sets = [] ↔ entriesAt addr sets' = [] := fun addr =>
    ⟨fun h => (h ▸ hentries addr).nil_eq.symm, fun h => (h ▸ hentries addr).eq_nil⟩
  have hwild : ∀ addr, (∃ e ∈ entriesAt addr sets, isWildcard e.eventRules = true) ↔
      ∃ e ∈ entriesAt addr sets', isWildcard e.eventRules = true := by
    intro addr
    simp only [(hentries addr).mem_iff]
  have hcall (req : AccessCheckRequest) (org : Organization) (s : Selector) :=
    givenOr_iff (P := fun lists => ∃ params,
        (standing selectorKey FunctionRule.paramRules s.text lists).head? = some params ∧
          AdmitsCall j req org s params)
      (p := isPrecompileAddress (toLower req.targetAddress) = true)
      (hnil (toLower req.targetAddress)) (hopen _) fun hempty lists lists' hlists hlists' => by
        rw [hempty] at hlists
        rw [(hnil _).mp hempty] at hlists'
        exact Option.some.inj (hlists.symm.trans hlists')
  constructor
  · intro hsame
    refine ⟨fun name hforward hcover => ?_,
      fun req org s => (hcall req org s).mp (hsame (.call req org s)),
      fun address t topics data hno => ?_⟩
    · have h := hsame (.method name)
      simp only [Gives, hforward, true_and, ← hstar] at h
      simpa [hcover] using h
    · have h := hsame (.event address t topics data)
      have hnone : ¬ ∃ e ∈ entriesAt (toLower address) sets, isWildcard e.eventRules = true := by
        simpa using hno
      simpa only [Gives, GivesEvent, ← hwild, hnone, false_or] using h
  · intro hsame q
    cases q with
    | method name =>
      simp only [Gives, ← hstar]
      refine and_congr_right fun hforward => ?_
      by_cases hcover : Starred sets ∧ j.controller.registry.inWildcardExpansion name = true
      · simp [hcover]
      · simp only [hcover, or_false, hsame.methods name hforward hcover]
    | claim claim =>
      simp only [Gives, hperm.mem_iff]
    | contract address =>
      simp only [Gives, Ne, hnil]
    | contractClaim address claim =>
      simp only [Gives, (hentries _).mem_iff]
    | call req org selector =>
      cases selector with
      | none => simp only [Gives, GivesCall, hnil, hopen]
      | some s => exact (hcall req org s).mpr (hsame.calls req org s)
    | event address t topics data =>
      simp only [Gives, GivesEvent, ← hwild]
      by_cases hany : ∃ e ∈ entriesAt (toLower address) sets, isWildcard e.eventRules = true
      · simp only [hany, true_or]
      · simp only [hany, false_or]
        exact hsame.events address t topics data (by simpa using hany)

/-- The order of the memberships makes no difference exactly when the same methods,
parameter rules and event rules stand in both orders, as far as any method, call or
log can tell. -/
theorem membership_order_irrelevant_iff (t : GrantTables) (r : Resolver) (userID orgID : String)
    (clock : Time) (j : Judge) (memberships memberships' : List OrgMembership)
    (hperm : memberships.Perm memberships')
    (hno : ∀ m ∈ memberships, m.group.isOrgAdmin = false) :
    ∃ p p', t.permissions r userID orgID clock memberships = .ok p ∧
      t.permissions r userID orgID clock memberships' = .ok p' ∧
      ((∀ q, allows j p.toEffectivePermissions q = allows j p'.toEffectivePermissions q) ↔
        SameStanding j (t.groupSets r memberships) (t.groupSets r memberships')) := by
  obtain ⟨p, hp, heq⟩ := @permissions_of_members t r userID orgID clock _ hno
  obtain ⟨p', hp', heq'⟩ := @permissions_of_members t r userID orgID clock memberships'
    fun m hm => hno m (hperm.mem_iff.mpr hm)
  refine ⟨p, p', hp, hp', ?_⟩
  have hsets : (t.groupSets r memberships).Perm (t.groupSets r memberships') := hperm.map _
  rw [heq, heq', ← sameStanding_iff j hsets]
  refine forall_congr' fun q => ?_
  rw [← allows_merged (lowerKeys_groupSets t r _), ← allows_merged (lowerKeys_groupSets t r _)]
  exact Bool.eq_iff_iff

/-- Whether the transfer is allowed depends on which group is listed first. -/
theorem transfer_depends_on_order :
    tokenDecision ["receivers", "senders"] transferToEve = .ok true ∧
      tokenDecision ["senders", "receivers"] transferToEve = .ok false := by
  decide +kernel

/-- A reader who is a writer as well may be listed in either order. -/
theorem readers_in_any_order :
    ∃ p p', tokenTables.permissions { cacheTTL := 0 } "eve" "acme" Time.zero
          (["readers", "writers"].map memberOf) = .ok p ∧
      tokenTables.permissions { cacheTTL := 0 } "eve" "acme" Time.zero
          (["writers", "readers"].map memberOf) = .ok p' ∧
      ∀ q, allows tokenJudge p.toEffectivePermissions q =
        allows tokenJudge p'.toEffectivePermissions q := by
  obtain ⟨p, p', hp, hp', hiff⟩ := membership_order_irrelevant_iff tokenTables { cacheTTL := 0 }
    "eve" "acme" Time.zero tokenJudge (["readers", "writers"].map memberOf)
    (["writers", "readers"].map memberOf) (List.Perm.swap _ _ _) (by decide)
  have hleft := entriesAt_token { cacheTTL := 0 } ["readers", "writers"]
  have hright := entriesAt_token { cacheTTL := 0 } ["writers", "readers"]
  refine ⟨p, p', hp, hp', hiff.mpr ⟨fun name _ _ => ?_, fun req org s lists lists' hl hl' => ?_,
    fun address t topics data _ => ?_⟩⟩
  · rw [methods_token, methods_token]
    have hne : toLower "eth_call" ≠ toLower "eth_sendTransaction" := by decide +kernel
    by_cases hcall : toLower "eth_call" = toLower name <;>
      by_cases hsend : toLower "eth_sendTransaction" = toLower name <;>
      simp_all [spellings, contenders, keyed, tokenRow]
  · rw [hleft] at hl
    rw [hright] at hl'
    split_ifs at hl hl' with haddr
    · obtain rfl := Option.some.inj hl
      obtain rfl := Option.some.inj hl'
      have hne : toLower "0x23b872dd" ≠ toLower "0x70a08231" := by decide +kernel
      by_cases hbalance : toLower "0x70a08231" = s.text <;>
        by_cases htransfer : toLower "0x23b872dd" = s.text <;>
        simp_all [standing, contenders, keyed, tokenEntry, tokenFunctions, selectorKey, relaxed]
    · obtain rfl := Option.some.inj (hl.symm.trans hl')
      rfl
  · rw [hleft, hright]
    split_ifs with haddr
    · have hne : toLower transferTopic ≠ toLower approvalTopic := by decide +kernel
      by_cases htransfer : toLower transferTopic = t.text <;>
        by_cases happroval : toLower approvalTopic = t.text <;>
        simp_all [standing, contenders, keyed, tokenEntry, tokenEvents, topicKey, relaxed,
          allowlists,
          LogFilter.eventRulesGetRules]
    · rfl

end PrivacySuite.Rbac
