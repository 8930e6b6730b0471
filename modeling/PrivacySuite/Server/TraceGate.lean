import PrivacySuite.Rbac.Access
import PrivacySuite.Rbac.TraceValidator
import PrivacySuite.Server.Request
import PrivacySuite.Tracer.RuntimeTracer

/-!
# The trace gates of the processor

`internal/server/jsonrpc_trace.go`: before a call or a transaction is forwarded,
it is traced on the node and the trace is validated. A gate that lets a request
through returns, beside what the source returns, the evidence it rests on: the
code lookups, traces and verdicts it obtained while it handled the request.
-/

namespace PrivacySuite.Server

open Go Phase Rbac Tracer

/-! ## The processor -/

/-- What a signed preflight found. -/
structure Prepared where
  trace : Option TraceResult
  codeHashes : List (String × String) := []
  freshCreations : String → Bool := fun _ => false
  survivingCreations : String → Bool := fun _ => false
  noCodeRecipients : String → Bool := fun _ => false
  plainValueTransfer : Bool := false

def Prepared.getCodeHash (prepared : Prepared) (address : String) : Except String String :=
  match prepared.codeHashes.lookup (toLower address) with
  | some hash => .ok hash
  | none => .error "code missing from approved execution snapshot"

/-- The signed approval service. `preflight` is the simulation of a transaction
on the node; `allow` is the rate limit, `none` when it was never installed. -/
structure NodeApprovals where
  accepting : Bool
  allow : Option (String → Bool)
  chainID : Except String Nat
  preflight : (tx : SignedTx) → (sender : String) → Except String Prepared
  enqueue : Prepared → Except String Unit

/-- What the processor is wired to, at the moment of a request. -/
structure Processor where
  accessCtrl : AccessController
  runtimeTracer : Option RuntimeTracer
  traceValidator : Option TraceValidator
  nodeApprovals : Option NodeApprovals := none
  ethCallTracing : Bool := true
  intraOrgGrantTracing : Bool := false
  strict : Bool := false
  admitsConcurrent : String → Bool := fun _ => true
  /-- `checkCompliance`: the refusal, if there is one. -/
  checkCompliance : (orgID userID : String) → TxParams → Option ProcessError :=
    fun _ _ _ => none
  circuitOpen : String → Bool := fun _ => false
  defaultRPCAPIKey : String := ""
  /-- The address resolver of the store, when it has one. -/
  didByEthAddress : Option (String → Except String String) := none
  /-- The transaction decoder of the transaction library. -/
  unmarshalBinary : List UInt8 → Except String SignedTx

/-- The tracer and the validator, when both are there and tracing is on. -/
def Processor.activeTracing (p : Processor) : Option (RuntimeTracer × TraceValidator) :=
  match p.runtimeTracer, p.traceValidator with
  | some rt, some validator => if rt.enabled then some (rt, validator) else none
  | _, _ => none

/-! ## Evidence -/

/-- What a gate obtained while it handled a request. -/
inductive Evidence where
  /-- The node reported no code at the recipient. -/
  | noCode (recipient : String)
  /-- The tracer answered the request. -/
  | traced (request : TraceRequest) (trace : TraceResult)
  /-- The signed preflight of a transaction. -/
  | preflighted (tx : SignedTx) (prepared : Prepared)
  /-- `ValidateTrace` allowed the trace for these organizations. -/
  | allowed (userOrgIDs : List String) (trace : TraceResult)

structure SendGate where
  createTargets : List CreateTarget := []
  evidence : List Evidence := []

/-! ## Refusals -/

def refuse {α : Type} (statusCode : Nat) (message : String) (reason : DenialReason := .none) :
    Except ProcessError α :=
  .error { statusCode, message, reason }

def ethCallDenyCrossOrg : String := "call denied: cross-org access not permitted"
def ethCallDenyDepthExceeded : String :=
  "call denied: trace depth exceeded; not provable as same-org"
def ethCallDenyTracerError : String := "call denied: tracing temporarily unavailable"
def ethCallDenyInvalidRequest : String := "call denied: invalid request shape"
def sendTraceDenyCrossOrg : String := "transaction denied: cross-org access not permitted"
def sendTraceDenyDeployClaim : String :=
  "transaction denied: runtime contract creation requires the deploy claim"
def sendTraceDenyTracerError : String := "transaction denied: tracing temporarily unavailable"
def sendTraceValidatorError : String := "transaction denied: trace validation unavailable"

def sendTraceDenyMessage (reason : String) : String :=
  if reason = "runtime contract creation requires deploy claim" then sendTraceDenyDeployClaim
  else sendTraceDenyCrossOrg

/-- Go on with a looked-up value, or refuse with a fixed text. -/
def orRefuse {α : Type} (x : Except String α) (statusCode : Nat) (message : String) :
    Except ProcessError α :=
  orFail x fun _ => { statusCode, message, reason := .tracingUnavailable }

/-- Go on with a value that is there, or refuse with a fixed text. -/
def someOrRefuse {α : Type} (x : Except String (Option α)) (statusCode : Nat) (message : String) :
    Except ProcessError α :=
  match x with
  | .ok (some a) => .ok a
  | _ => refuse statusCode message .tracingUnavailable

/-! ## Organizations, claims and grants of the caller -/

def membershipOrgs (memberships : List MembershipWithDetails) : List String :=
  (memberships.filterMap fun m => m.group.map (·.orgID)).dedup

def isDeployClaim (claim : Claim) : Bool := claim == .deploy || claim == .admin

def membershipsHaveDeployClaim (store : Store) (memberships : List MembershipWithDetails) : Bool :=
  memberships.any fun m =>
    match m.membership.map (fun membership => store.getGroupAccess membership.groupID) with
    | some (.ok (some access)) => access.claims.any isDeployClaim
    | _ => false

def effectivePermissionsHasDeployClaim (perms : EffectivePermissions) : Bool :=
  perms.claims.any isDeployClaim

def liveMemberships (memberships : List MembershipWithDetails) : List MembershipWithDetails :=
  memberships.filter fun m =>
    match m.membership with
    | some membership => !membership.expired
    | none => false

def senderLinked (store : Store) (userID fromAddr : String) : Except String Bool :=
  if fromAddr = "" then .ok true
  else (store.getLinkedEthAddresses userID).map fun addresses =>
    addresses.any fun address => equalFold address fromAddr

section Gates

variable (p : Processor)

def resolveGrantedContracts (userID : String) : List String → Except String (List String)
  | [] => .ok []
  | orgID :: rest => do
      let perms ← p.accessCtrl.resolvePermissions userID orgID
      let more ← resolveGrantedContracts userID rest
      return perms.contractAccess.map (fun entry => toLower entry.1) ++ more

def intraOrgGrantTraceOptions (userID targetAddr : String) (userOrgIDs : List String) :
    Except String (List TraceOption) :=
  if p.intraOrgGrantTracing = false then .ok []
  else do
    let granted ← resolveGrantedContracts p userID userOrgIDs
    return [withIntraOrgGrantScoping fun addr =>
      granted.contains addr || (targetAddr != "" && addr == toLower targetAddr)]

/-! ## The send gates -/

/-- The tail of every send gate: validate an obtained trace. -/
def validateSendTrace (validator : TraceValidator) (userID targetAddr : String)
    (userOrgIDs : List String) (userHasDeploy : Bool) (extraOpts : List TraceOption)
    (trace : TraceResult) : Except ProcessError (List CreateTarget) := do
  let opts ← orRefuse (intraOrgGrantTraceOptions p userID targetAddr userOrgIDs) 403
    sendTraceValidatorError
  let result ← orRefuse (validateTrace validator userOrgIDs userHasDeploy (some trace)
    (opts ++ extraOpts)) 500 sendTraceValidatorError
  if result.allowed then .ok result.createTargets
  else refuse 403 (sendTraceDenyMessage result.reason) .crossOrg

def validateDeployWithTracing (rt : RuntimeTracer) (validator : TraceValidator) (userID : String)
    (tx : TxParams) (userOrgIDs : List String) (userHasDeploy : Bool) :
    Except ProcessError SendGate := do
  let trace ← someOrRefuse
    (rt.traceTransactionUncached tx.fromAddr "" tx.data tx.value (.str "latest")) 403
    sendTraceDenyTracerError
  let createTargets ← validateSendTrace p validator userID "" userOrgIDs userHasDeploy [] trace
  return {
    createTargets
    evidence :=
      [.traced (uncachedRequest tx.fromAddr "" tx.data tx.value (.str "latest")) trace,
       .allowed userOrgIDs trace] }

/-- The user and the active memberships a send is traced for. -/
def sendIdentity (userExternalID userText membershipText : String) :
    Except ProcessError (User × List MembershipWithDetails) := do
  let user ← someOrRefuse (p.accessCtrl.store.getUserByExternalID userExternalID) 403 userText
  let memberships ← orRefuse (p.accessCtrl.store.listActiveUserMembershipsWithDetails user.id) 403
    membershipText
  return (user, memberships)

/-- The recipient is reported to have no code, and nothing is called on it. -/
def isPlainTransfer (rt : RuntimeTracer) (tx : TxParams) : Bool :=
  isSimpleValueTransfer tx.data &&
    match rt.hasCode tx.toAddr with
    | .ok hasCode => !hasCode
    | .error _ => false

/-- A transaction traced through the cache and validated. -/
def traceAndValidate (rt : RuntimeTracer) (validator : TraceValidator) (user : User)
    (memberships : List MembershipWithDetails) (tx : TxParams) : Except ProcessError SendGate := do
  let trace ← someOrRefuse (rt.traceTransaction tx.fromAddr tx.toAddr tx.data tx.value) 403
    sendTraceDenyTracerError
  let createTargets ← validateSendTrace p validator user.id tx.toAddr (membershipOrgs memberships)
    (membershipsHaveDeployClaim p.accessCtrl.store memberships) [] trace
  return {
    createTargets
    evidence := [.traced (transactionRequest tx.fromAddr tx.toAddr tx.data tx.value) trace,
                 .allowed (membershipOrgs memberships) trace] }

/-- The sender of a send must be linked to the caller's account. The comparison
is by lower case, unlike that of the read gate. -/
def checkSendSender (userID fromAddr : String) : Except ProcessError Unit :=
  onlyIf (fromAddr ≠ "") do
    let addresses ← orRefuse (p.accessCtrl.store.getLinkedEthAddresses userID) 403
      "failed to verify sender identity"
    onlyIf (addresses.any (fun a => toLower a == toLower fromAddr) = false)
      (refuse 400 "invalid sender: from address is not linked to your account" .senderNotLinked)

/-- `validateWithTracing`, past its early exits. -/
def validateSend (rt : RuntimeTracer) (validator : TraceValidator) (req : ProcessRequest) :
    Except ProcessError SendGate := do
  let (user, memberships) ← sendIdentity p req.userID "failed to get user for trace validation"
    "failed to get user memberships for trace validation"
  if (extractTxParams req.params).toAddr = "" then
    validateDeployWithTracing p rt validator user.id (extractTxParams req.params)
      (membershipOrgs memberships) (membershipsHaveDeployClaim p.accessCtrl.store memberships)
  else do
    checkSendSender p req.userID (extractTxParams req.params).fromAddr
    if isPlainTransfer rt (extractTxParams req.params) then
      return { evidence := [.noCode (extractTxParams req.params).toAddr] }
    else traceAndValidate p rt validator user memberships (extractTxParams req.params)

/-- A request without a target leaves before any trace. -/
def validateWithTracing (req : ProcessRequest) (targetAddr : String) :
    Except ProcessError SendGate :=
  match p.activeTracing with
  | none => .ok {}
  | some (rt, validator) =>
      if req.method ≠ "eth_sendTransaction" then .ok {}
      else if targetAddr = "" then .ok {}
      else validateSend p rt validator req

/-- `validateRawTxWithPreparedTrace` with a signed preflight. A preflight without
a trace falls back to the tracer. -/
def validateRawTxWithPreparedTrace (rt : RuntimeTracer) (validator : TraceValidator)
    (req : ProcessRequest) (signed : SignedTx) (tx : TxParams) (prepared : Prepared) :
    Except ProcessError SendGate := do
  let (user, memberships) ← sendIdentity p req.userID "failed to get user for trace validation"
    "failed to get user memberships for trace validation"
  let trace ← someOrRefuse
    (match prepared.trace with
      | some trace => .ok (some trace)
      | none => rt.traceTransaction tx.fromAddr tx.toAddr tx.data tx.value) 403
    sendTraceDenyTracerError
  let createTargets ← validateSendTrace p
    { validator with codeFetcher := some prepared.getCodeHash } user.id tx.toAddr
    (membershipOrgs memberships) (membershipsHaveDeployClaim p.accessCtrl.store memberships)
    [withPreflightCreations prepared.freshCreations,
     withPreflightValueRecipients prepared.noCodeRecipients] trace
  return {
    createTargets := createTargets.filter fun t => prepared.survivingCreations (toLower t.address)
    evidence :=
      [match prepared.trace with
        | some _ => .preflighted signed prepared
        | none => .traced (transactionRequest tx.fromAddr tx.toAddr tx.data tx.value) trace,
       .allowed (membershipOrgs memberships) trace] }

def validateRawTxWithTracing (rt : RuntimeTracer) (validator : TraceValidator)
    (req : ProcessRequest) (tx : TxParams) : Except ProcessError SendGate := do
  let (user, memberships) ← sendIdentity p req.userID "failed to get user for trace validation"
    "failed to get user memberships for trace validation"
  traceAndValidate p rt validator user memberships tx

/-! ## The read gate -/

/-- `traceOrgScope` of the live paths: pinned to one organization, or all active
memberships with the deploy claim of the resolved organization. -/
def traceOrgScope (user : User) (pinned resolvedOrgID : String) :
    Except String (List String × Bool) :=
  if pinned ≠ "" then do
    let perms ← p.accessCtrl.resolvePermissions user.id pinned
    return ([pinned], effectivePermissionsHasDeployClaim perms)
  else do
    let memberships ← p.accessCtrl.store.listActiveUserMembershipsWithDetails user.id
    if resolvedOrgID = "" then
      return (membershipOrgs (liveMemberships memberships),
        membershipsHaveDeployClaim p.accessCtrl.store (liveMemberships memberships))
    else do
      let perms ← p.accessCtrl.resolvePermissions user.id resolvedOrgID
      return (membershipOrgs (liveMemberships memberships),
        effectivePermissionsHasDeployClaim perms)

/-- The methods the read gate traces; a call without a target is a creation. -/
def readGateMethods : List String := ["eth_call", "eth_estimateGas", "eth_createAccessList"]

/-- The early exits of the read gate: `none` when the request is let through
untraced. -/
def readTracing (req : ProcessRequest) (targetAddr : String) :
    Except ProcessError (Option (RuntimeTracer × TraceValidator)) :=
  if readGateMethods.contains (p.accessCtrl.registry.resolveMethodAlias req.method) = false then
    .ok none
  else if targetAddr = "" then
    if classifyCallShape req.params ≠ .creation then
      refuse 400 ethCallDenyInvalidRequest .invalidRequestShape
    else
      match p.activeTracing with
      | none => refuse 403 ethCallDenyTracerError .tracingUnavailable
      | some tracing => .ok (some tracing)
  else if p.accessCtrl.registry.resolveMethodAlias req.method = "eth_createAccessList" ∨
      p.ethCallTracing = false then .ok none
  else .ok p.activeTracing

/-- The checks on the shape of a traced read, and its block. -/
def checkReadShape (req : ProcessRequest) (targetAddr : String) : Except ProcessError Json := do
  onlyIf (targetAddr = "" ∧ (trimSpace (extractTxParams req.params).data = "" ∨
      equalFold (trimSpace (extractTxParams req.params).data) "0x" = true))
    (refuse 400 ethCallDenyInvalidRequest .invalidRequestShape)
  let block ← orFail (extractEthCallBlockParam req.params) fun _ =>
    { statusCode := 400, message := ethCallDenyInvalidRequest, reason := .invalidRequestShape }
  onlyIf (targetAddr ≠ "" ∧ ((extractTxParams req.params).toAddr = "" ∨
      isHexAddress (extractTxParams req.params).toAddr = false))
    (refuse 400 ethCallDenyInvalidRequest .invalidRequestShape)
  onlyIf ((extractTxParams req.params).fromAddr ≠ "" ∧
      isHexAddress (extractTxParams req.params).fromAddr = false)
    (refuse 400 ethCallDenyInvalidRequest .invalidRequestShape)
  return block

/-- The sender of a read must be linked to the caller's account. -/
def checkReadSender (req : ProcessRequest) : Except ProcessError Unit := do
  let linked ← orRefuse
    (senderLinked p.accessCtrl.store req.userID (extractTxParams req.params).fromAddr) 403
    ethCallDenyTracerError
  onlyIf (linked = false) (refuse 400 ethCallDenyInvalidRequest .senderNotLinked)

/-- The trace request of a read: the whole object of a creation, without its
recipient; four fields of anything else. -/
def readRequest (req : ProcessRequest) (targetAddr : String) (block : Json) : TraceRequest :=
  if targetAddr = "" then
    traceCallObjectRequest (eraseKey ((firstObject req.params).getD []) "to") block
  else
    uncachedRequest (extractTxParams req.params).fromAddr (extractTxParams req.params).toAddr
      (extractTxParams req.params).data (extractTxParams req.params).value block

/-- The trace of a read; a trace that is too deep is told apart. -/
def traceRead (rt : RuntimeTracer) (request : TraceRequest) : Except ProcessError TraceResult :=
  orFail (rt.traceCall request) fun e =>
    if e = traceDepthExceeded then
      { statusCode := 403, message := ethCallDenyDepthExceeded, reason := .traceDepthExceeded }
    else { statusCode := 403, message := ethCallDenyTracerError, reason := .tracingUnavailable }

def judgeRead (result : TraceValidationResult) : Except ProcessError Unit :=
  onlyIf (result.allowed = false) (refuse 403 ethCallDenyCrossOrg
    (if result.denialKind = .deployClaim then .deployClaimRequired else .crossOrg))

/-- `validateEthCallWithTracingInOrg`, past its early exits. -/
def validateRead (rt : RuntimeTracer) (validator : TraceValidator) (req : ProcessRequest)
    (targetAddr pinned resolvedOrgID : String) : Except ProcessError (List Evidence) := do
  let block ← checkReadShape req targetAddr
  let user ← someOrRefuse (p.accessCtrl.store.getUserByExternalID req.userID) 403
    ethCallDenyTracerError
  checkReadSender p req
  let (userOrgIDs, userHasDeploy) ← orRefuse (traceOrgScope p user pinned resolvedOrgID) 403
    ethCallDenyTracerError
  let trace ← traceRead rt (readRequest req targetAddr block)
  let opts ← orRefuse (intraOrgGrantTraceOptions p user.id
    (if targetAddr = "" then "" else (extractTxParams req.params).toAddr) userOrgIDs) 403
    ethCallDenyTracerError
  let result ← orRefuse (validateTrace validator userOrgIDs userHasDeploy (some trace)
    (opts ++ if targetAddr = "" then [withCreatedContractsAsOwn] else [])) 500
    ethCallDenyTracerError
  judgeRead result
  return [.traced (readRequest req targetAddr block) trace, .allowed userOrgIDs trace]

def validateEthCallWithTracingInOrg (req : ProcessRequest)
    (targetAddr pinned resolvedOrgID : String) :
    Except ProcessError (List Evidence) := do
  let tracing ← readTracing p req targetAddr
  match tracing with
  | none => return []
  | some (rt, validator) => validateRead p rt validator req targetAddr pinned resolvedOrgID

/-- Under an impersonation scope the trace is validated in the scope organization only. -/
def validateEthCallWithTracing (scope : Option String) (req : ProcessRequest)
    (targetAddr resolvedOrgID : String) : Except ProcessError (List Evidence) :=
  match scope with
  | none => validateEthCallWithTracingInOrg p req targetAddr "" resolvedOrgID
  | some orgID =>
      if orgID = "" then refuse 403 ethCallDenyTracerError .tracingUnavailable
      else validateEthCallWithTracingInOrg p req targetAddr orgID resolvedOrgID

end Gates

end PrivacySuite.Server
