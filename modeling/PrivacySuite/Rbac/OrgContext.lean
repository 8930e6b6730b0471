import PrivacySuite.Go.Phase
import PrivacySuite.Rbac.Models

/-!
# Organization context

`internal/rbac/org_context.go`: the organizations a caller belongs to, the
organization that owns the target, and the address checks made against them.

The source memoises owner lookups in the context. Here the memo carries the fact
that makes it harmless, `cache_sound`: every remembered owner is the one the
store reports. `ownerOrgID_ok` is the resulting specification: memo or not,
`OwnerOrgID` is the store's answer for the normalised address.
-/

namespace PrivacySuite.Rbac

open Go

def errContractAccessDenied : String := "contract access denied"

/-! ## Memberships -/

/-- The distinct organizations of the active memberships. -/
def getUserOrgIDs (store : Store) (userID : String) : Except String (List String) := do
  let memberships ← store.listActiveUserMembershipsWithDetails userID
  return (memberships.filterMap fun m => m.group.map (·.orgID)).dedup

/-- Under an impersonation scope only the scope organization counts. `scope` is
`viewscope.Org(ctx)`, `none` when no scope is set. -/
def scopeUserOrgIDs (scope : Option String) (orgIDs : List String) : List String :=
  match scope with
  | none => orgIDs
  | some orgID => if orgID ≠ "" ∧ orgIDs.contains orgID then [orgID] else []

/-- The organizations an access decision may count the caller a member of. -/
def scopedUserOrgIDs (store : Store) (scope : Option String) (userID : String) :
    Except String (List String) := do
  let orgIDs ← getUserOrgIDs store userID
  return scopeUserOrgIDs scope orgIDs

/-! ## The context -/

structure OrgContext (store : Store) where
  org : Option Organization
  userOrgIDs : List String
  ownerOrgCache : List (String × String)
  cache_sound : ∀ key owner, ownerOrgCache.lookup key = some owner →
    store.getContractOwnerOrgID key = .ok owner

namespace OrgContext

variable {store : Store}

/-- A context that has looked nothing up yet. -/
def fresh (org : Option Organization) (userOrgIDs : List String) : OrgContext store where
  org := org
  userOrgIDs := userOrgIDs
  ownerOrgCache := []
  cache_sound := by simp

def remember (oc : OrgContext store) (key owner : String)
    (h : store.getContractOwnerOrgID key = .ok owner) : OrgContext store where
  org := oc.org
  userOrgIDs := oc.userOrgIDs
  ownerOrgCache := (key, owner) :: oc.ownerOrgCache
  cache_sound := by
    intro key' owner' hlookup
    rw [List.lookup_cons] at hlookup
    split at hlookup
    · rename_i heq
      obtain rfl : key' = key := by simpa using heq
      obtain rfl : owner = owner' := by simpa using hlookup
      exact h
    · exact oc.cache_sound key' owner' hlookup

/-- The memo first, then the store; the answer and the context with the answer remembered.
-/
def ownerOrgID (oc : OrgContext store) (addr : String) :
    Except String (String × OrgContext store) :=
  match oc.ownerOrgCache.lookup (trimLower addr) with
  | some owner => .ok (owner, oc)
  | none =>
      match h : store.getContractOwnerOrgID (trimLower addr) with
      | .error e => .error e
      | .ok owner => .ok (owner, oc.remember (trimLower addr) owner h)

variable {oc : OrgContext store} {address : String}

theorem ownerOrgID_ok {oc' : OrgContext store} {addr owner : String}
    (h : oc.ownerOrgID addr = .ok (owner, oc')) :
    store.getContractOwnerOrgID (trimLower addr) = .ok owner ∧
      oc'.org = oc.org ∧ oc'.userOrgIDs = oc.userOrgIDs := by
  unfold ownerOrgID at h
  split at h
  · rename_i hlookup
    cases h
    exact ⟨oc.cache_sound _ _ hlookup, rfl, rfl⟩
  · split at h
    · cases h
    · rename_i howner
      cases h
      exact ⟨howner, rfl, rfl⟩

def checkAddressInScope (oc : OrgContext store) (address : String) : Except String Unit :=
  if trimLower address = "" then .ok ()
  else
    match store.getContractOwnerOrgID (trimLower address) with
    | .error e => .error ("failed to check contract owner: " ++ e)
    | .ok owner =>
        if owner = "" then
          if isPrecompileAddress (trimLower address) then .ok () else .error errContractAccessDenied
        else if oc.userOrgIDs.contains owner then .ok ()
        else .error errContractAccessDenied

def checkMultiAddressesInScope (oc : OrgContext store) (addresses : List String) :
    Except String Unit :=
  addresses.forM oc.checkAddressInScope

def checkDefaultClaimsAllowed (store : Store) (address : String) (hasExplicitAccess : Bool) :
    Except String Unit :=
  if hasExplicitAccess then .ok ()
  else if trimLower address = "" then .ok ()
  else
    match store.getContractOwnerOrgID (trimLower address) with
    | .error e => .error ("failed to check contract ownership: " ++ e)
    | .ok owner =>
        if owner = "" ∧ isPrecompileAddress (trimLower address) then .ok ()
        else .error errContractAccessDenied

theorem checkAddressInScope_ok (h : oc.checkAddressInScope address = .ok ())
    (hne : trimLower address ≠ "") :
    ∃ owner, store.getContractOwnerOrgID (trimLower address) = .ok owner ∧
      ((owner = "" ∧ isPrecompileAddress (trimLower address) = true) ∨
        (owner ≠ "" ∧ owner ∈ oc.userOrgIDs)) := by
  unfold checkAddressInScope at h
  rw [if_neg hne] at h
  split at h
  · cases h
  · rename_i owner howner
    refine ⟨owner, howner, ?_⟩
    split at h
    · rename_i hempty
      split at h
      · rename_i hpre
        exact .inl ⟨hempty, hpre⟩
      · cases h
    · rename_i hne'
      split at h
      · rename_i hmem
        exact .inr ⟨hne', by simpa using hmem⟩
      · cases h

theorem checkMultiAddressesInScope_ok {addresses : List String}
    (h : oc.checkMultiAddressesInScope addresses = .ok ()) :
    ∀ a ∈ addresses, oc.checkAddressInScope a = .ok () :=
  Phase.forM_ok h

/-- Default claims reach unowned precompiles and nothing else. -/
theorem checkDefaultClaimsAllowed_ok {hasExplicitAccess : Bool}
    (h : checkDefaultClaimsAllowed store address hasExplicitAccess = .ok ())
    (hne : trimLower address ≠ "") :
    hasExplicitAccess = true ∨
      (store.getContractOwnerOrgID (trimLower address) = .ok "" ∧
        isPrecompileAddress (trimLower address) = true) := by
  unfold checkDefaultClaimsAllowed at h
  split at h
  · rename_i hex
    exact .inl hex
  · split at h
    · cases h
    · rename_i owner howner
      split at h
      · rename_i hcond
        exact .inr ⟨hcond.1 ▸ howner, hcond.2⟩
      · cases h

end OrgContext

/-! ## Construction -/

/-- The context of a target owned by an organization the caller is not a member of cannot be
built. -/
def newOrgContext (store : Store) (scope : Option String) (user : User) (targetAddress : String) :
    Except String (OrgContext store) :=
  match scopedUserOrgIDs store scope user.id with
  | .error e => .error ("failed to get user organizations: " ++ e)
  | .ok userOrgIDs =>
      if targetAddress = "" then .ok (.fresh none userOrgIDs)
      else
        match h : store.getContractOwnerOrgID (trimLower targetAddress) with
        | .error e => .error ("failed to get contract owner: " ++ e)
        | .ok owner =>
            if owner = "" then
              .ok ((OrgContext.fresh none userOrgIDs).remember (trimLower targetAddress) owner h)
            else if userOrgIDs.contains owner then
              match store.getOrganization owner with
              | .error e => .error ("failed to get organization: " ++ e)
              | .ok org =>
                  .ok ((OrgContext.fresh org userOrgIDs).remember (trimLower targetAddress) owner h)
            else .error errContractAccessDenied

variable {store : Store} {scope : Option String} {user : User} {target : String}
  {oc : OrgContext store}

theorem newOrgContext_ok (h : newOrgContext store scope user target = .ok oc) :
    scopedUserOrgIDs store scope user.id = .ok oc.userOrgIDs ∧
      (target ≠ "" → ∃ owner, store.getContractOwnerOrgID (trimLower target) = .ok owner ∧
        (owner = "" ∨ owner ∈ oc.userOrgIDs)) := by
  unfold newOrgContext at h
  split at h
  · cases h
  · rename_i userOrgIDs horgs
    split at h
    · rename_i hempty
      cases h
      exact ⟨horgs, fun hne => absurd hempty hne⟩
    · split at h
      · cases h
      · rename_i owner howner
        split at h
        · rename_i hnone
          cases h
          exact ⟨horgs, fun _ => ⟨owner, howner, .inl hnone⟩⟩
        · split at h
          · rename_i hmem
            split at h
            · cases h
            · cases h
              exact ⟨horgs, fun _ => ⟨owner, howner, .inr (List.contains_iff_mem.mp hmem)⟩⟩
          · cases h

/-- The organization of the context of an owned target is the owner's record. -/
theorem newOrgContext_org {owner : String} (h : newOrgContext store scope user target = .ok oc)
    (htarget : target ≠ "") (howner : store.getContractOwnerOrgID (trimLower target) = .ok owner)
    (hne : owner ≠ "") : store.getOrganization owner = .ok oc.org := by
  unfold newOrgContext at h
  split at h
  · cases h
  · rw [if_neg htarget] at h
    split at h
    · cases h
    · rename_i owner' howner'
      obtain rfl : owner' = owner := Except.ok.inj (howner'.symm.trans howner)
      rw [if_neg hne] at h
      split at h
      · split at h
        · cases h
        · rename_i org horg
          cases h
          exact horg
      · cases h

end PrivacySuite.Rbac
