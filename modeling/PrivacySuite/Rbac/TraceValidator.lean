import PrivacySuite.Rbac.OrgContext
import PrivacySuite.Tracer.Trace

/-!
# Trace validation

`ValidateTrace` decides whether every address a traced execution touches is one
the caller may reach. It passes over the call targets twice: the first pass
judges the creations, the second every other frame. Both passes carry a state: a
frame owned by an organization out of the evaluation scope is put off to the end,
so that a denial inside the scope wins.

What an allowed verdict guarantees is proved in `PrivacySuite.Rbac.TraceSoundness`.
-/

namespace PrivacySuite.Rbac

open Go Phase Tracer

/-! ## Store, options and result -/

structure SharedInfrastructure where
  address : String
  codehash : Option String := none

structure TraceValidatorStore where
  isAddressOwnedByOrg : String → String → Except String Bool
  getContractOwnerOrgID : String → Except String String
  isAddressPreregistered : String → String → Except String Bool
  getSharedInfrastructure : String → Except String (Option SharedInfrastructure)

/-- The validator. Without a code fetcher a code hash pin is not checked. -/
structure TraceValidator where
  store : TraceValidatorStore
  codeFetcher : Option (String → Except String String) := none

inductive DenialKind where
  | none
  | foreignOrg
  | unregistered
  | deployClaim
  | createForeign
  | delegateSharedInfra
  | codehashMismatch
  | intraOrgUngranted
  | outOfScope
  deriving DecidableEq, Repr

structure TraceOptions where
  intraOrgGrantScoping : Bool := false
  grantedContracts : String → Bool := fun _ => false
  createdAsOwn : Bool := false
  clientTraceGrants : Bool := false
  freshCreations : String → Bool := fun _ => false
  noCodeRecipients : String → Bool := fun _ => false
  inScope : Option (String → Bool) := none

abbrev TraceOption := TraceOptions → TraceOptions

def withCreatedContractsAsOwn : TraceOption := fun o => { o with createdAsOwn := true }

def withPreflightCreations (addresses : String → Bool) : TraceOption :=
  fun o => { o with freshCreations := addresses }

def withPreflightValueRecipients (addresses : String → Bool) : TraceOption :=
  fun o => { o with noCodeRecipients := addresses }

def withIntraOrgGrantScoping (grantedContracts : String → Bool) : TraceOption :=
  fun o => { o with intraOrgGrantScoping := true, grantedContracts }

def applyOptions (opts : List TraceOption) : TraceOptions := opts.foldl (fun o fn => fn o) {}

structure CreateTarget where
  kind : CallKind
  address : String
  fromAddr : String
  deriving DecidableEq, Repr

structure TraceValidationResult where
  allowed : Bool
  reason : String := ""
  denialKind : DenialKind := .none
  deniedTarget : String := ""
  deniedOrgID : String := ""
  createTargets : List CreateTarget := []
  clientAccessTargets : List CallTarget := []
  deriving DecidableEq, Repr

/-- A verdict, or the error that prevented one. -/
abbrev TraceOutcome := Except String TraceValidationResult

def TraceOutcome.Allows (o : TraceOutcome) : Prop := ∃ r, o = .ok r ∧ r.allowed = true

instance TraceOutcome.decidableAllows (o : TraceOutcome) : Decidable (TraceOutcome.Allows o) :=
  match o with
  | .error _ => isFalse fun ⟨_, h, _⟩ => by cases h
  | .ok r =>
      if h : r.allowed = true then isTrue ⟨r, rfl, h⟩
      else isFalse fun ⟨_, hr, hallowed⟩ => h (Except.ok.inj hr ▸ hallowed)

def denyTrace {α : Type} (reason : String) (denialKind : DenialKind) (deniedTarget : String := "") :
    Except TraceOutcome α :=
  .error (.ok { allowed := false, reason, denialKind, deniedTarget })

def failTrace (text : String) (e : String) : TraceOutcome := .error (text ++ e)

/-! ## Addresses -/

def normalizeTraceAddr (addr : String) : String :=
  if trimSpace (toLower addr) = "" then ""
  else if hasPrefix (trimSpace (toLower addr)) "0x" then trimSpace (toLower addr)
  else "0x" ++ trimSpace (toLower addr)

def zeroAddress : String := "0x0000000000000000000000000000000000000000"

/-- The normalized forms that name no account. -/
def isBlankAddr (addr : String) : Bool := addr == "" || addr == "0x" || addr == zeroAddress

/-- The normalized address a frame reaches or creates. -/
def targetAddr (target : CallTarget) : String := normalizeTraceAddr target.toAddr

/-- The first frame owned by an organization out of scope; none while `address`
is empty. -/
structure OutOfScopeFrame where
  address : String := ""
  orgID : String := ""
  deriving DecidableEq, Repr

def OutOfScopeFrame.first (frame : OutOfScopeFrame) (address orgID : String) : OutOfScopeFrame :=
  if frame.address ≠ "" then frame else { address, orgID }

theorem OutOfScopeFrame.first_ne {frame : OutOfScopeFrame} {address orgID : String}
    (h : address ≠ "") : (frame.first address orgID).address ≠ "" := by
  unfold OutOfScopeFrame.first
  split
  · assumption
  · exact h

theorem ne_empty_of_not_blank {addr : String} (h : isBlankAddr addr = false) : addr ≠ "" := by
  rintro rfl
  cases h

section Validator

variable (v : TraceValidator) (userOrgIDs : List String) (userHasDeploy : Bool) (o : TraceOptions)

/-- The owner may not be consulted by this evaluation. -/
def TraceOptions.excludes (orgID : String) : Bool :=
  match o.inScope with
  | none => false
  | some inScope => !inScope orgID

/-! ## Rule 1: creations -/

structure CreatePass where
  outOfScope : OutOfScopeFrame := {}
  freshCreated : List String := []
  createTargets : List CreateTarget := []

def judgeCreated (s : CreatePass) (target : CallTarget) (ownerOrgID : String) :
    Except TraceOutcome CreatePass :=
  if ownerOrgID ≠ "" ∧ ownerOrgID ∉ userOrgIDs ∧ o.excludes ownerOrgID = true then
    .ok { s with outOfScope := s.outOfScope.first (targetAddr target) ownerOrgID }
  else if ownerOrgID ≠ "" ∧ ownerOrgID ∉ userOrgIDs then
    denyTrace "contract access denied" .createForeign (targetAddr target)
  else if o.clientTraceGrants = true ∧ ownerOrgID ≠ "" ∧
      o.grantedContracts (targetAddr target) = false then
    denyTrace "contract access denied" .intraOrgUngranted (targetAddr target)
  else
    .ok { s with
      freshCreated :=
        if o.freshCreations (targetAddr target) then targetAddr target :: s.freshCreated
        else s.freshCreated
      createTargets := s.createTargets ++
        [{ kind := target.kind, address := targetAddr target,
           fromAddr := normalizeTraceAddr target.fromAddr }] }

def validateCreateTarget (s : CreatePass) (target : CallTarget) : Except TraceOutcome CreatePass :=
  if target.kind.isCreate = false then .ok s
  else if isBlankAddr (targetAddr target) = true then .ok s
  else do
    let ownerOrgID ← orFail (v.store.getContractOwnerOrgID (targetAddr target))
      (failTrace "failed to get contract owner for created address: ")
    judgeCreated userOrgIDs o s target ownerOrgID

def validateCreations (trace : TraceResult) : Except TraceOutcome CreatePass :=
  if (trace.hasCreate || trace.hasCreate2) = false then .ok {}
  else if userHasDeploy = false then
    denyTrace "runtime contract creation requires deploy claim" .deployClaim
  else trace.callTargets.foldlM (validateCreateTarget v userOrgIDs o) {}

/-! ## Rule 2: every other frame -/

structure CallPass where
  outOfScope : OutOfScopeFrame := {}
  createdInTrace : List String := []
  clientAccessTargets : List CallTarget := []

/-- A successful creation counts as the caller's own from here on, when the
options say so. -/
def CallPass.recordCreation (s : CallPass) (target : CallTarget) : CallPass :=
  if o.createdAsOwn = true ∧ target.error = "" ∧ isBlankAddr (targetAddr target) = false then
    { s with createdInTrace := targetAddr target :: s.createdInTrace }
  else s

/-- Rule 2b, given the tagged row: whether the frame is passed as shared
infrastructure. A hash that cannot be fetched leaves the frame to the other
rules. -/
def judgeShared (target : CallTarget) (row : Option SharedInfrastructure) :
    Except TraceOutcome Bool :=
  match row with
  | none => .ok false
  | some row =>
      if target.kind = .delegateCall ∨ target.kind = .callCode then
        denyTrace errContractAccessDenied .delegateSharedInfra (targetAddr target)
      else
        match row.codehash.filter (· ≠ ""), v.codeFetcher with
        | some pin, some getCodeHash =>
            match getCodeHash (targetAddr target) with
            | .error _ => .ok false
            | .ok currentHash =>
                if equalFold currentHash pin then .ok true
                else denyTrace errContractAccessDenied .codehashMismatch (targetAddr target)
        | _, _ => .ok true

def checkSharedInfrastructure (target : CallTarget) : Except TraceOutcome Bool := do
  let row ← orFail (v.store.getSharedInfrastructure (targetAddr target))
    (failTrace "failed to check shared infrastructure: ")
  judgeShared v target row

/-- A question asked of one organization after the other, until the first yes or
error. -/
def anyOrg (ask : String → Except String Bool) : List String → Except String Bool
  | [] => .ok false
  | orgID :: rest =>
      match ask orgID with
      | .error e => .error e
      | .ok true => .ok true
      | .ok false => anyOrg ask rest

/-- Rule 2c: ownership by one of the caller's organizations. -/
def ownedByUserOrg (addr : String) : Except String Bool :=
  anyOrg (fun orgID => (v.store.isAddressOwnedByOrg addr orgID).mapError
    (("failed to check address ownership for org " ++ orgID ++ ": ") ++ ·)) userOrgIDs

def isPreregisteredForAnyOrg (addr : String) : Except String Bool :=
  anyOrg (fun orgID => v.store.isAddressPreregistered orgID addr) userOrgIDs

/-- The address a grant is looked up for: a delegated frame of a client trace
runs on its parent's storage. -/
def grantAddress (target : CallTarget) : String :=
  if o.clientTraceGrants = true ∧ target.kind = .delegateCall then
    normalizeTraceAddr target.storageAddress
  else targetAddr target

/-- Rule 2c': a frame of the caller's organization, under grant scoping. -/
def validateOwnedTarget (s : CallPass) (target : CallTarget) : Except TraceOutcome CallPass :=
  if o.intraOrgGrantScoping = true ∧ o.grantedContracts (grantAddress o target) = false then do
    let prereg ← orFail
      (if userHasDeploy then isPreregisteredForAnyOrg v userOrgIDs (grantAddress o target)
        else .ok false)
      (failTrace "failed to check preregistration: ")
    if prereg then .ok s
    else denyTrace errContractAccessDenied .intraOrgUngranted (targetAddr target)
  else if o.clientTraceGrants = true ∧ 0 < target.depth then
    .ok { s with clientAccessTargets := s.clientAccessTargets ++ [target] }
  else .ok s

/-- Rules 2d and 2e, given the owner: a frame of no organization of the caller. -/
def judgeUnowned (s : CallPass) (target : CallTarget) (ownerOrgID : String) :
    Except TraceOutcome CallPass :=
  if ownerOrgID ≠ "" ∧ o.excludes ownerOrgID = true then
    .ok { s with outOfScope := s.outOfScope.first (targetAddr target) ownerOrgID }
  else if ownerOrgID ≠ "" then
    denyTrace errContractAccessDenied .foreignOrg (targetAddr target)
  else if o.noCodeRecipients (targetAddr target) = true ∧
      (target.kind = .call ∨ target.kind = .selfDestruct) then .ok s
  else denyTrace errContractAccessDenied .unregistered (targetAddr target)

def validateByOwner (s : CallPass) (target : CallTarget) : Except TraceOutcome CallPass := do
  let owned ← orFail (ownedByUserOrg v userOrgIDs (targetAddr target)) (failTrace "")
  if owned then validateOwnedTarget v userOrgIDs userHasDeploy o s target
  else do
    let ownerOrgID ← orFail (v.store.getContractOwnerOrgID (targetAddr target))
      (failTrace "failed to get contract owner: ")
    judgeUnowned o s target ownerOrgID

def validateCallTarget (freshCreated : List String) (s : CallPass) (target : CallTarget) :
    Except TraceOutcome CallPass :=
  if target.kind.isCreate = true then .ok (s.recordCreation o target)
  else if isBlankAddr (targetAddr target) = true then .ok s
  else if isPrecompileAddress (targetAddr target) = true then .ok s
  else if targetAddr target ∈ s.createdInTrace then .ok s
  else do
    let shared ← checkSharedInfrastructure v target
    if shared = true ∨ targetAddr target ∈ freshCreated then .ok s
    else validateByOwner v userOrgIDs userHasDeploy o s target

def traceVerdict (creations : CreatePass) (calls : CallPass) : TraceValidationResult :=
  if calls.outOfScope.address ≠ "" then
    { allowed := false, reason := errContractAccessDenied, denialKind := .outOfScope,
      deniedTarget := calls.outOfScope.address, deniedOrgID := calls.outOfScope.orgID,
      createTargets := creations.createTargets }
  else
    { allowed := true, createTargets := creations.createTargets,
      clientAccessTargets := calls.clientAccessTargets }

def validateTrace (trace : Option TraceResult) (opts : List TraceOption) : TraceOutcome :=
  match trace with
  | none => .ok { allowed := true }
  | some trace => run do
      let creations ← validateCreations v userOrgIDs userHasDeploy (applyOptions opts) trace
      let calls ← trace.callTargets.foldlM
        (validateCallTarget v userOrgIDs userHasDeploy (applyOptions opts) creations.freshCreated)
        { outOfScope := creations.outOfScope }
      .ok (.ok (traceVerdict creations calls))

end Validator

end PrivacySuite.Rbac
