import PrivacySuite.Rbac.Access

/-!
# What each phase of an access check guarantees

A phase that can only end the check with a denial or an error is `DenyOnly`. An
allowed outcome of a chain then comes from behind every deny-only phase of it
(`allows_of_bind`), which is how an allow is traced back to the phase that gave
it. The specification lemmas below say what has been established when a phase is
passed; the results about `checkAccess` cite them and never unfold a phase.
-/

namespace PrivacySuite.Rbac

open Go Phase OrgContext

/-! ## Deny-only phases -/

/-- The phase never ends the check with an allow. -/
abbrev DenyOnly {α : Type} (x : Check α) : Prop := EndsIn (¬ Outcome.Allows ·) x

section Rules

variable {α : Type}

theorem denyOnly_deny (reason : String) (auth : Bool) : DenyOnly (deny reason auth : Check α) :=
  fun _ h => not_allows_of_deny h

theorem denyOnly_orFail {ε : Type} (x : Except ε α) (message : String) (show_ : ε → String) :
    DenyOnly (orFail x fun e => fail message (show_ e)) :=
  endsIn_orFail fun _ => not_allows_fail _ _

theorem denyOnly_orFail_string (x : Except String α) (message : String) :
    DenyOnly (orFail x (fail message)) :=
  denyOnly_orFail x message id

theorem denyOnly_orDeny (x : Except String α) (describe : String → String) :
    DenyOnly (orDeny x describe) := by
  unfold orDeny
  split
  · exact denyOnly_deny _ _
  · exact endsIn_ok _

theorem denyOnly_denyIf (p : Prop) [Decidable p] (reason : String) (auth : Bool) :
    DenyOnly (denyIf p reason auth) :=
  endsIn_onlyIf (denyOnly_deny reason auth)

theorem allows_of_bind {x : Check α} {f : α → Check Outcome} (hx : DenyOnly x)
    (h : (run (x >>= f)).Allows) : ∃ a, x = .ok a ∧ (run (f a)).Allows :=
  run_bind_of_endsIn hx h

end Rules

theorem orDeny_ok {α : Type} {x : Except String α} {describe : String → String} {a : α}
    (h : orDeny x describe = .ok a) : x = .ok a := by
  unfold orDeny at h
  split at h
  · cases h
  · cases h
    rfl

/-! ## Phases before an organization is chosen -/

section Spec

variable {c : AccessController} {req : AccessCheckRequest}

theorem denyOnly_checkGlobalBlocks : DenyOnly (checkGlobalBlocks c req) := by
  unfold checkGlobalBlocks
  refine endsIn_ite (denyOnly_deny _ _) (endsIn_ite (denyOnly_deny _ _) ?_)
  split
  · exact denyOnly_deny _ _
  · exact endsIn_ok _

theorem denyOnly_checkStateOverrides : DenyOnly (checkStateOverrides c req) :=
  endsIn_ite (denyOnly_deny _ _) (endsIn_ok _)

theorem denyOnly_resolveAndValidateUser : DenyOnly (resolveAndValidateUser c req) := by
  refine endsIn_bind (denyOnly_orFail_string _ _) fun user => ?_
  cases user with
  | none => exact denyOnly_deny _ _
  | some user =>
    exact endsIn_ite (denyOnly_deny _ _) (endsIn_ite (denyOnly_deny _ _) (endsIn_ok _))

variable {user : User} {org : Organization} {oc : OrgContext c.store} {perms : EffectivePermissions}
  {addr : String} {ta : TargetAccess} {fetched : Option String} {requiredClaim : Option Claim}

theorem resolveAndValidateUser_ok (h : resolveAndValidateUser c req = .ok user) :
    c.store.getUserByExternalID req.userExternalID = .ok (some user) := by
  obtain ⟨found, hfound, hrest⟩ := bind_ok_cases h
  cases found with
  | none => cases hrest
  | some u =>
    have hu : u = user := by
      simp only at hrest
      split at hrest
      · cases hrest
      · split at hrest
        · cases hrest
        · exact Except.ok.inj hrest
    exact hu ▸ orFail_ok hfound

theorem denyOnly_checkHistoricalStateQuery (user : User) :
    DenyOnly (checkHistoricalStateQuery c req user) := by
  unfold checkHistoricalStateQuery
  split
  · exact endsIn_ok _
  · split
    · exact endsIn_ok _
    · exact endsIn_bind (denyOnly_orFail_string _ _) fun _ =>
        endsIn_ite (endsIn_ok _) (denyOnly_deny _ _)

/-! ## Choosing the organization -/

theorem denyOnly_memberOrg (orgs : List String) (org : Option Organization) :
    DenyOnly (memberOrg orgs org) := by
  cases org with
  | none => exact denyOnly_deny _ _
  | some org => exact endsIn_ite (endsIn_ok _) (denyOnly_deny _ _)

theorem denyOnly_selectOrg (oc : OrgContext c.store) : DenyOnly (selectOrg c req oc) := by
  unfold selectOrg
  refine endsIn_ite ?_ (endsIn_ite ?_ ?_)
  · exact endsIn_bind (denyOnly_orFail_string _ _) fun _ => denyOnly_memberOrg _ _
  · exact endsIn_bind (denyOnly_orFail_string _ _) fun _ => denyOnly_memberOrg _ _
  · split
    · exact endsIn_ok _
    · split
      · refine endsIn_bind (denyOnly_orFail_string _ _) fun org => ?_
        cases org with
        | none => exact denyOnly_deny _ _
        | some org => exact endsIn_ok _
      · exact denyOnly_deny _ _

theorem denyOnly_resolveOrgContextForRequest (scope : Option String) (user : User) :
    DenyOnly (resolveOrgContextForRequest c req scope user) := by
  unfold resolveOrgContextForRequest
  split
  · intro o h
    cases h
    rintro ⟨r, hr, hallowed⟩
    cases hr
    cases hallowed
  · exact endsIn_bind (denyOnly_denyIf _ _ _) fun _ =>
      endsIn_bind (denyOnly_selectOrg _) fun _ => endsIn_ok _

variable {scope : Option String} {oc' : OrgContext c.store} {owner : String} {ta' : TargetAccess}
  {x : Check Unit} {o : Outcome}

theorem resolveOrgContextForRequest_ok
    (h : resolveOrgContextForRequest c req scope user = .ok (org, oc)) :
    newOrgContext c.store scope user (trimLower req.targetAddress) = .ok oc ∧
      selectOrg c req oc = .ok org := by
  unfold resolveOrgContextForRequest at h
  split at h
  · cases h
  · rename_i oc' hctx
    obtain ⟨-, -, hrest⟩ := bind_ok_cases h
    obtain ⟨org', horg, hpair⟩ := bind_ok_cases hrest
    cases hpair
    exact ⟨hctx, horg⟩

/-! ## `eth_getLogs` -/

/-- A filter address that passed: an explicit entry, or an unowned precompile, or
default claims that `CheckDefaultClaimsAllowed` let through. -/
theorem validateGetLogsAddress_ok (h : validateGetLogsAddress c perms addr = .ok ()) :
    perms.isContractRegistered addr = true ∨
      (c.store.getContractOwnerOrgID addr = .ok "" ∧ isPrecompileAddress addr = true) ∨
      checkDefaultClaimsAllowed c.store addr false = .ok () := by
  obtain ⟨owner, howner, hrest⟩ := bind_ok_cases h
  cases hreg : perms.isContractRegistered addr with
  | true => exact .inl rfl
  | false =>
    right
    unfold getLogsOwner at howner
    rw [hreg, if_neg (by simp)] at howner
    have hstore := orFail_ok howner
    split at hrest
    · rename_i hempty
      left
      split at hrest
      · rename_i hpre
        refine ⟨?_, hpre⟩
        cases hc : c.store.getContractOwnerOrgID addr with
        | error e => rw [hc] at hstore; cases hstore
        | ok o =>
          rw [hc, hempty] at hstore
          have : o = "" := by simpa [Except.map] using hstore
          rw [this]
      · cases hrest
    · right
      obtain ⟨⟨⟩, hdefault, -⟩ := bind_ok_cases hrest
      rw [hreg] at hdefault
      exact orFail_ok hdefault

theorem validateGetLogsWithOrgContext_ok
    (h : validateGetLogsWithOrgContext c req perms oc = .ok ()) :
    ∃ filterObj, firstObject req.params = some filterObj ∧
      ∀ a ∈ extractGetLogsAddresses filterObj,
        oc.checkAddressInScope a = .ok () ∧ validateGetLogsAddress c perms a = .ok () := by
  obtain ⟨-, -, hrest⟩ := bind_ok_cases h
  cases hobj : firstObject req.params with
  | none => rw [hobj] at hrest; cases hrest
  | some filterObj =>
    rw [hobj] at hrest
    obtain ⟨-, -, hrest⟩ := bind_ok_cases hrest
    obtain ⟨⟨⟩, hscope, hall⟩ := bind_ok_cases hrest
    refine ⟨filterObj, rfl, fun a ha => ⟨?_, ?_⟩⟩
    · exact checkMultiAddressesInScope_ok (orFail_ok hscope) a ha
    · exact forM_ok hall a ha

/-! ## The contract gate -/

theorem lookupAccess_ok (h : lookupAccess c oc perms addr = .ok (ta, fetched, oc')) :
    ta.hasExplicitAccess = perms.isContractRegistered addr ∧ oc'.userOrgIDs = oc.userOrgIDs ∧
      ∀ owner, fetched = some owner →
        c.store.getContractOwnerOrgID (trimLower addr) = .ok owner := by
  unfold lookupAccess at h
  split at h
  · rename_i hcond
    obtain ⟨⟨owner, oc1⟩, howner, hrest⟩ := bind_ok_cases h
    obtain ⟨hstore, -, horgs⟩ := ownerOrgID_ok (orFail_ok howner)
    simp only at hrest
    split at hrest <;> cases hrest
    all_goals exact ⟨hcond.2.symm, horgs, fun o ho => by cases ho; exact hstore⟩
  · cases h
    exact ⟨rfl, rfl, by simp⟩

theorem ownerOnce_ok
    (hfetched : ∀ owner, fetched = some owner →
      c.store.getContractOwnerOrgID (trimLower addr) = .ok owner)
    (h : ownerOnce c oc addr fetched = .ok owner) :
    c.store.getContractOwnerOrgID (trimLower addr) = .ok owner := by
  cases fetched with
  | some o =>
    cases h
    exact hfetched _ rfl
  | none =>
    have hmap := orFail_ok h
    cases hoc : oc.ownerOrgID addr with
    | error e => rw [hoc] at hmap; cases hmap
    | ok pair =>
      rw [hoc] at hmap
      cases hmap
      exact (ownerOrgID_ok hoc).1

/-- What opens a pre-registered target: an owner among the caller's
organizations that planned the address, and an operational claim. -/
def PreregisteredFor (c : AccessController) (orgs : List String) (perms : EffectivePermissions)
    (addr : String) : Prop :=
  ∃ owner, c.store.getContractOwnerOrgID (trimLower addr) = .ok owner ∧ owner ≠ "" ∧
    owner ∈ orgs ∧ c.store.isAddressPreregistered owner addr = .ok true ∧
    (hasClaim perms.claims .deploy = true ∨ hasClaim perms.claims .admin = true)

theorem addPreregistered_ok
    (hfetched : ∀ owner, fetched = some owner →
      c.store.getContractOwnerOrgID (trimLower addr) = .ok owner)
    (h : addPreregistered c oc perms addr ta fetched = .ok ta') :
    ta' = ta ∨ PreregisteredFor c oc.userOrgIDs perms addr := by
  unfold addPreregistered at h
  split at h
  · cases h
    exact .inl rfl
  · obtain ⟨owner, howner, hrest⟩ := bind_ok_cases h
    have hstore := ownerOnce_ok hfetched howner
    split at hrest
    · rename_i hmember
      obtain ⟨preregistered, hpre, hrest⟩ := bind_ok_cases hrest
      split at hrest
      · rename_i hopen
        refine .inr ⟨owner, hstore, hmember.1, by simpa using hmember.2, ?_, hopen.2⟩
        rw [orFail_ok hpre, hopen.1]
      · cases hrest
        exact .inl rfl
    · cases hrest
      exact .inl rfl

theorem addDeployer_ok (h : addDeployer c user addr requiredClaim ta = .ok ta') :
    ta' = ta ∨ c.store.getContractDeployerByAddress addr = .ok (some user.id) := by
  unfold addDeployer at h
  split at h
  · obtain ⟨deployer, hdep, hrest⟩ := bind_ok_cases h
    split at hrest
    · rename_i hself
      right
      rw [orFail_ok hdep, hself]
    · cases hrest
      exact .inl rfl
  · cases h
    exact .inl rfl

theorem checkTargetAccess_ok (h : checkTargetAccess c req org requiredClaim ta = .ok ()) :
    checkDefaultClaimsAllowed c.store (toLower req.targetAddress)
      ta.hasExplicitAccess = .ok () := by
  unfold checkTargetAccess at h
  split at h
  · cases h
  · obtain ⟨⟨⟩, hdefault, -⟩ := bind_ok_cases h
    exact orDeny_ok hdefault

/-- An owned target passes the gate in three ways only: an explicit entry, a
pre-registration, or its deployer. -/
theorem validateContractAccess_ok
    (h : validateContractAccess c req user org oc perms requiredClaim = .ok ())
    (hkey : trimLower req.targetAddress ≠ "")
    (howner : c.store.getContractOwnerOrgID (trimLower req.targetAddress) = .ok owner)
    (hne : owner ≠ "") :
    perms.isContractRegistered req.targetAddress = true ∨
      PreregisteredFor c oc.userOrgIDs perms (toLower req.targetAddress) ∨
      c.store.getContractDeployerByAddress (toLower req.targetAddress) = .ok (some user.id) := by
  obtain ⟨⟨ta, fetched, oc1⟩, hlookup, hrest⟩ := bind_ok_cases h
  obtain ⟨ta1, hpre, hrest⟩ := bind_ok_cases hrest
  obtain ⟨ta2, hdep, hgates⟩ := bind_ok_cases hrest
  obtain ⟨hexplicit, horgs, hfetched⟩ := lookupAccess_ok hlookup
  rcases addDeployer_ok hdep with rfl | hdeployer
  · rcases addPreregistered_ok hfetched hpre with rfl | hplanned
    · -- nothing was added: what is left is the entry itself, since default
      -- claims never reach an owned address
      left
      have hdefault := checkTargetAccess_ok hgates
      rw [hexplicit] at hdefault
      rcases checkDefaultClaimsAllowed_ok hdefault
          (by rwa [trimLower_toLower]) with hreg | ⟨hnone, -⟩
      · simpa [EffectivePermissions.isContractRegistered] using hreg
      · rw [trimLower_toLower, howner] at hnone
        exact absurd (Except.ok.inj hnone) hne
    · exact .inr (.inl (horgs ▸ hplanned))
  · exact .inr (.inr hdeployer)

theorem denyOnly_lookupAccess (oc : OrgContext c.store) (perms : EffectivePermissions)
    (addr : String) : DenyOnly (lookupAccess c oc perms addr) := by
  refine endsIn_ite (endsIn_bind (denyOnly_orFail_string _ _) fun _ => ?_) (endsIn_ok _)
  exact endsIn_ite (endsIn_ok _) (endsIn_ok _)

theorem denyOnly_addPreregistered (oc : OrgContext c.store) (perms : EffectivePermissions)
    (addr : String) (ta : TargetAccess) (fetched : Option String) :
    DenyOnly (addPreregistered c oc perms addr ta fetched) := by
  refine endsIn_ite (endsIn_ok _) (endsIn_bind ?_ fun owner => ?_)
  · cases fetched with
    | some owner => exact endsIn_ok _
    | none => exact denyOnly_orFail_string _ _
  · exact endsIn_ite (endsIn_bind (denyOnly_orFail_string _ _) fun _ =>
      endsIn_ite (endsIn_ok _) (endsIn_ok _)) (endsIn_ok _)

theorem denyOnly_addDeployer (user : User) (addr : String) (requiredClaim : Option Claim)
    (ta : TargetAccess) : DenyOnly (addDeployer c user addr requiredClaim ta) := by
  refine endsIn_ite (endsIn_bind (denyOnly_orFail_string _ _) fun deployer => ?_)
    (endsIn_ok _)
  refine endsIn_ite ?_ (endsIn_ok _)
  split <;> exact endsIn_ok _

theorem denyOnly_validateStorageReadAccess (access : ContractAccess) :
    DenyOnly (validateStorageReadAccess req access) := by
  refine endsIn_ite (endsIn_ok _) (endsIn_forM fun method => ?_)
  split
  · exact denyOnly_deny _ _
  · exact endsIn_ite (endsIn_ok _) (denyOnly_deny _ _)

theorem denyOnly_validateFunctionSelector (org : Organization) (access : ContractAccess) :
    DenyOnly (validateFunctionSelector c req org access) := by
  refine endsIn_ite (endsIn_ite (denyOnly_deny _ _) ?_)
    (endsIn_ite (denyOnly_deny _ _) (endsIn_ok _))
  split
  · exact endsIn_ok _
  · refine endsIn_ite (endsIn_ok _) ?_
    unfold validateSelectorParams
    split
    · exact denyOnly_deny _ _
    · exact endsIn_bind (denyOnly_orFail_string _ _) fun _ =>
        endsIn_bind (denyOnly_orFail_string _ _) fun _ => denyOnly_orDeny _ _

theorem denyOnly_validateProxyUpgrade (org : Organization) (access : ContractAccess) :
    DenyOnly (validateProxyUpgrade c req org access) := by
  unfold validateProxyUpgrade
  split
  · exact endsIn_ok _
  · exact endsIn_ok _
  · exact endsIn_bind (denyOnly_denyIf _ _ _) fun _ =>
      endsIn_bind (denyOnly_orFail_string _ _) fun _ => denyOnly_denyIf _ _ _

theorem denyOnly_checkTargetAccess (org : Organization) (requiredClaim : Option Claim)
    (ta : TargetAccess) : DenyOnly (checkTargetAccess c req org requiredClaim ta) := by
  unfold checkTargetAccess
  split
  · exact denyOnly_deny _ _
  · exact endsIn_bind (denyOnly_orDeny _ _) fun _ => endsIn_bind (denyOnly_denyIf _ _ _)
      fun _ => endsIn_bind (denyOnly_validateStorageReadAccess _) fun _ =>
        endsIn_bind (denyOnly_validateFunctionSelector _ _) fun _ =>
          endsIn_onlyIf (denyOnly_validateProxyUpgrade _ _)

theorem denyOnly_validateContractAccess (user : User) (org : Organization)
    (oc : OrgContext c.store) (perms : EffectivePermissions) (requiredClaim : Option Claim) :
    DenyOnly (validateContractAccess c req user org oc perms requiredClaim) :=
  endsIn_bind (denyOnly_lookupAccess _ _ _) fun _ =>
    endsIn_bind (denyOnly_addPreregistered _ _ _ _ _) fun _ =>
      endsIn_bind (denyOnly_addDeployer _ _ _ _) fun _ => denyOnly_checkTargetAccess _ _ _

/-! ## Carve-outs

A carve-out allows an unowned target. On an owned one it falls through. -/

theorem allowIfUnowned_error (h : allowIfUnowned c oc addr x = .error o) (hallows : o.Allows) :
    c.store.getContractOwnerOrgID (trimLower addr) = .ok "" := by
  rcases bind_error_cases h with hfail | ⟨⟨owner, oc1⟩, howner, hrest⟩
  · exact absurd hallows (denyOnly_orFail_string _ _ o hfail)
  · rcases bind_error_cases hrest with hguard | ⟨-, -, hpure⟩
    · rw [(ownerOrgID_ok (orFail_ok howner)).1, (onlyIf_error hguard).1]
    · cases hpure

theorem allowIfUnowned_ok (h : allowIfUnowned c oc addr x = .ok oc') :
    oc'.userOrgIDs = oc.userOrgIDs := by
  obtain ⟨⟨owner, oc1⟩, howner, hrest⟩ := bind_ok_cases h
  obtain ⟨-, -, hpure⟩ := bind_ok_cases hrest
  cases hpure
  exact (ownerOrgID_ok (orFail_ok howner)).2.2

section Carveouts

variable {user : User} {org : Organization} {oc oc' : OrgContext c.store}
  {perms : EffectivePermissions} {requiredClaim : Option Claim} {o : Outcome} {p : Prop}
  [Decidable p]

theorem carveout_error
    (h : (if p then allowIfUnowned c oc (toLower addr) x else .ok oc) = .error o)
    (hallows : o.Allows) : c.store.getContractOwnerOrgID (trimLower addr) = .ok "" := by
  split at h
  · rw [← trimLower_toLower]
    exact allowIfUnowned_error h hallows
  · cases h

theorem carveout_ok (h : (if p then allowIfUnowned c oc addr x else .ok oc) = .ok oc') :
    oc'.userOrgIDs = oc.userOrgIDs := by
  split at h
  · exact allowIfUnowned_ok h
  · cases h
    rfl

theorem checkTargetedRequest_owned {owner : String}
    (h : (run (checkTargetedRequest c req user org oc perms requiredClaim)).Allows)
    (htarget : req.targetAddress ≠ "")
    (howner : c.store.getContractOwnerOrgID (trimLower req.targetAddress) = .ok owner)
    (hne : owner ≠ "") :
    ∃ oc', oc'.userOrgIDs = oc.userOrgIDs ∧
      validateContractAccess c req user org oc' perms requiredClaim = .ok () := by
  have hnot : c.store.getContractOwnerOrgID (trimLower req.targetAddress) ≠ .ok "" := by
    rw [howner]
    exact fun heq => hne (Except.ok.inj heq)
  rcases run_bind_cases h with ⟨o, herr, ho⟩ | ⟨oc1, h1, h⟩
  · exact absurd (carveout_error herr ho) hnot
  · rcases run_bind_cases h with ⟨o, herr, ho⟩ | ⟨oc2, h2, h⟩
    · exact absurd (carveout_error herr ho) hnot
    · obtain ⟨⟨⟩, hgate, -⟩ :=
        allows_of_bind (endsIn_onlyIf (denyOnly_validateContractAccess _ _ _ _ _)) h
      refine ⟨oc2, ?_, onlyIf_ok hgate htarget⟩
      exact (carveout_ok h2).trans (carveout_ok h1)

end Carveouts

/-! ## Whole checks -/

theorem denyOnly_resolvePermissionsForRequest (user : User) (org : Organization) :
    DenyOnly (resolvePermissionsForRequest c req user org) :=
  denyOnly_orFail_string _ _

/-- The two ways past the first phases of `checkWithResolvedOrg`: an `eth_getLogs`
request whose filter was validated, or any other request, still to be judged. -/
theorem checkWithResolvedOrg_allows (h : (run (checkWithResolvedOrg c req user org oc)).Allows) :
    ∃ perms, permissionsIn c req.bypassCache user.id org.id = .ok perms ∧
      ((req.effectiveMethod = "eth_getLogs" ∧
          validateGetLogsWithOrgContext c req perms oc = .ok ()) ∨
        (req.effectiveMethod ≠ "eth_getLogs" ∧
          (classifyOperation req.effectiveMethod req.params ≠ some .deploy →
            (run (checkTargetedRequest c req user org oc perms
              (classifyOperation req.effectiveMethod req.params))).Allows))) := by
  obtain ⟨perms, hperms, h⟩ := allows_of_bind (denyOnly_resolvePermissionsForRequest _ _) h
  obtain ⟨⟨⟩, -, h⟩ :=
    allows_of_bind (endsIn_ite (endsIn_ok ()) (denyOnly_deny _ _)) h
  refine ⟨perms, orFail_ok hperms, ?_⟩
  by_cases hmethod : req.effectiveMethod = "eth_getLogs"
  · refine .inl ⟨hmethod, ?_⟩
    unfold checkEthGetLogsAccess at h
    rw [if_pos hmethod] at h
    cases hlogs : validateGetLogsWithOrgContext c req perms oc with
    | error e =>
      rw [hlogs] at h
      exact absurd h (not_allows_of_deny (α := Unit) rfl)
    | ok u => rfl
  · refine .inr ⟨hmethod, fun hdeploy => ?_⟩
    unfold checkEthGetLogsAccess at h
    rw [if_neg hmethod] at h
    obtain ⟨⟨⟩, -, h⟩ := allows_of_bind (endsIn_ok ()) h
    obtain ⟨⟨⟩, -, h⟩ := allows_of_bind (denyOnly_denyIf _ _ _) h
    rwa [if_neg hdeploy] at h

theorem allows_of_stampOutcome (h : (stampOutcome user org o).Allows) : o.Allows := by
  obtain ⟨r, hr, hallowed⟩ := h
  cases o with
  | error e => cases hr
  | ok r' =>
    cases hr
    exact ⟨r', rfl, hallowed⟩

/-- An allowed request of a signed-in caller, for a method that is not chain
metadata, was judged in an organization. -/
theorem checkAccess_allows (h : (checkAccess c req scope).Allows) (hauth : req.userExternalID ≠ "")
    (hmeta : isOrgFreeMetadataMethod req.method = false) :
    ∃ user org oc, c.store.getUserByExternalID req.userExternalID = .ok (some user) ∧
      resolveOrgContextForRequest c req scope user = .ok (org, oc) ∧
      (run (checkWithResolvedOrg c req user org oc)).Allows := by
  obtain ⟨⟨⟩, -, h⟩ := allows_of_bind denyOnly_checkGlobalBlocks h
  obtain ⟨⟨⟩, -, h⟩ := allows_of_bind denyOnly_checkStateOverrides h
  rw [if_neg hauth] at h
  obtain ⟨user, huser, h⟩ := allows_of_bind denyOnly_resolveAndValidateUser h
  obtain ⟨⟨⟩, -, h⟩ := allows_of_bind (denyOnly_checkHistoricalStateQuery user) h
  rw [hmeta, if_neg (by simp)] at h
  obtain ⟨⟨org, oc⟩, hctx, h⟩ :=
    allows_of_bind (denyOnly_resolveOrgContextForRequest scope user) h
  exact ⟨user, org, oc, resolveAndValidateUser_ok huser, hctx, allows_of_stampOutcome h⟩

end Spec

end PrivacySuite.Rbac
