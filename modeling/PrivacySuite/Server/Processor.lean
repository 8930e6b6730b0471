import PrivacySuite.Go.Hexutil
import PrivacySuite.Server.TraceGate

/-!
# From a request to the forward step

`Process` and `processRawTransaction` of `internal/server/jsonrpc_processor.go`,
up to the request that goes to the node. A request is either refused or
forwarded; `Forward` is what is sent and what the gates established on the way.

The side effects between the gates and the forward step (pre-registrations,
metrics, access logs) never stop a request and are left out.
-/

namespace PrivacySuite.Server

open Go Phase Rbac Tracer

/-- What goes to the node, and on what grounds. -/
structure Forward where
  method : String
  params : List Json
  apiKey : String
  visibleTo : List String := []
  createTargets : List CreateTarget := []
  access : AccessCheckResult
  evidence : List Evidence := []

/-- The opaque answer to every denied request. -/
def methodNotFound : ProcessError where
  statusCode := 404
  message := "method not found"

def tooManyConcurrent : ProcessError where
  statusCode := 429
  message := "too many concurrent requests"

def upstreamRateLimited : ProcessError where
  statusCode := 429
  message := "upstream rate limited, retry in 1s"

section Process

variable (p : Processor) (scope : Option String)

/-- `evaluateAccessRequest`, with the processor's reading of the outcome. -/
def evaluateAccessRequest (accessReq : AccessCheckRequest) :
    Except ProcessError AccessCheckResult :=
  match checkAccess p.accessCtrl accessReq scope with
  | .error _ => .error methodNotFound
  | .ok result => if result.allowed then .ok result else .error methodNotFound

/-- The method whose rules apply to a request. -/
def accessMethod (req : ProcessRequest) : String :=
  p.accessCtrl.registry.resolveMethodAlias req.method

def requestTarget (req : ProcessRequest) : String :=
  getTargetAddress (accessMethod p req) req.params

def accessRequest (req : ProcessRequest) : AccessCheckRequest where
  userExternalID := req.userID
  orgID := req.orgID
  method := req.method
  accessMethod := accessMethod p req
  params := req.params
  targetAddress := requestTarget p req
  functionSelector := getFunctionSelector (accessMethod p req) req.params
  requiredClaims := (classifyOperation (accessMethod p req) req.params).toList
  bypassCache := req.bypassPermsCache

def strictProfileRejectsVisibleTo (req : ProcessRequest) (index : Nat) :
    Except ProcessError Unit :=
  onlyIf (p.strict = true ∧ visibleToFieldPresent req index = true)
    (refuse 400 "visibleTo is not supported on this network")

def complianceGate (access : AccessCheckResult) (tx : TxParams) : Except ProcessError Unit :=
  match p.checkCompliance access.orgID access.userID tx with
  | some e => .error e
  | none => .ok ()

/-- The recipients of a private send. They are accepted on contract calls only;
`noTarget` is how the caller reads a missing recipient. -/
def privateRecipients (req : ProcessRequest) (paramDIDs : List String) (tx : TxParams)
    (noTarget : Bool) : Except ProcessError (List String) := do
  let resolvedTop ← resolveTopLevelVisibleTo p.didByEthAddress (topLevelVisibleTo req)
  onlyIf (visibleToMaxSize < (unionVisibleToDIDs paramDIDs resolvedTop).length)
    (.error visibleToTooLong)
  onlyIf (unionVisibleToDIDs paramDIDs resolvedTop ≠ [] ∧
      (isSimpleValueTransfer tx.data = true ∨ noTarget = true))
    (refuse 400 "visibleTo is only supported for contract calls that emit event logs")
  return unionVisibleToDIDs paramDIDs resolvedTop

/-- The key a request is forwarded with, unless its circuit is open. -/
def upstreamKey (access : AccessCheckResult) : Except ProcessError String := do
  onlyIf (p.circuitOpen (if access.rpcAPIKey = "" then p.defaultRPCAPIKey else access.rpcAPIKey)
    = true) (.error upstreamRateLimited)
  return if access.rpcAPIKey = "" then p.defaultRPCAPIKey else access.rpcAPIKey

/-- The method and parameters that are sent: block queries are rewritten so that
they answer whole transactions. -/
def forwardedCall (method : String) (params : List Json) : String × List Json :=
  if method = "eth_getBlockByNumber" ∨ method = "eth_getBlockByHash" then
    match params with
    | [] => (method, [.null, .bool true])
    | first :: .bool true :: rest => (method, first :: .bool true :: rest)
    | first :: rest => (method, first :: .bool true :: rest.tail)
  else if method = "eth_getBlockTransactionCountByNumber" then
    ("eth_getBlockByNumber", [params.headD (.str "latest"), .bool true])
  else if method = "eth_getBlockTransactionCountByHash" then
    ("eth_getBlockByHash", [params.headD (.str "latest"), .bool true])
  else (method, params)

/-- The gates of a transaction only: compliance, and the private recipients. The
result is the recipients and the parameters without them. -/
def sendGates (access : AccessCheckResult) (req : ProcessRequest) :
    Except ProcessError (List String × List Json) :=
  if req.method = "eth_sendTransaction" then do
    complianceGate p access (extractTxParams req.params)
    let visibleTo ← privateRecipients p req (extractAndStripVisibleTo req.params).1
      (extractTxParams req.params)
      ((extractTxParams req.params).toAddr == "" || (extractTxParams req.params).toAddr == "0x")
    return (visibleTo, (extractAndStripVisibleTo req.params).2)
  else .ok ([], req.params)

/-- `Process`, on its standard route. -/
def processStandard (req : ProcessRequest) : Except ProcessError Forward := do
  onlyIf ((detectStateOverride p.accessCtrl.registry req.method req.params).isSome = true)
    (.error methodNotFound)
  let access ← evaluateAccessRequest p scope (accessRequest p req)
  onlyIf (req.method = "eth_sendTransaction") (strictProfileRejectsVisibleTo p req 0)
  onlyIf (p.admitsConcurrent req.userID = false) (.error tooManyConcurrent)
  let send ← validateWithTracing p req (requestTarget p req)
  let read ← validateEthCallWithTracing p scope req (requestTarget p req) access.orgID
  let (visibleTo, params) ← sendGates p access req
  let apiKey ← upstreamKey p access
  return {
    method := (forwardedCall req.method params).1
    params := (forwardedCall req.method params).2
    apiKey
    visibleTo
    createTargets := send.createTargets
    access
    evidence := send.evidence ++ read }

/-! ## Raw transactions -/

/-- `Service.Prepare`, up to the simulation itself. -/
def NodeApprovals.prepare (approvals : NodeApprovals)
    (unmarshalBinary : List UInt8 → Except String SignedTx) (raw : String) :
    Except String (SignedTx × Prepared) := do
  let bytes ← hexutilDecode raw
  let tx ← unmarshalBinary bytes
  onlyIf (tx.isProtected = false ∨ (tx.txType ≠ .legacy ∧ tx.txType ≠ .dynamicFee))
    (.error "V2 supports protected legacy/EIP-1559 transactions only")
  onlyIf (2 ^ 64 ≤ tx.chainID) (.error "chain id exceeds the approval wire format")
  let sender ← tx.sender
  let chain ← approvals.chainID
  onlyIf (tx.chainID ≠ chain) (.error "wrong chain")
  let prepared ← approvals.preflight tx sender
  return (tx, prepared)

def preflightUnavailable : ProcessError where
  statusCode := 403
  message := "signed preflight unavailable or unsupported transaction"
  reason := .tracingUnavailable

def approvalDeliveryUnavailable : ProcessError where
  statusCode := 503
  message := "approval delivery unavailable"
  reason := .upstreamError

/-- The rate limit on signed preflights. -/
def limitPreflight (approvals : NodeApprovals) (userID : String) : Except ProcessError Unit :=
  match approvals.allow with
  | none => .error preflightUnavailable
  | some allow =>
      onlyIf (allow userID = false)
        (refuse 429 "rate limit exceeded (requests per second)" .rateLimited)

/-- The signed preflight of a raw transaction, when the service is wired. -/
def preparePreflight (req : ProcessRequest) (rawTxHex : String) :
    Except ProcessError (Option (SignedTx × Prepared)) :=
  match p.nodeApprovals with
  | none => .ok none
  | some approvals => do
      onlyIf (approvals.accepting = false) (.error approvalDeliveryUnavailable)
      limitPreflight approvals req.userID
      let prepared ← orFail (approvals.prepare p.unmarshalBinary rawTxHex) fun _ =>
        preflightUnavailable
      return some prepared

/-- The validator of a raw call. Without one the source fails before it forwards. -/
def rawValidator : Except ProcessError TraceValidator :=
  match p.traceValidator with
  | some validator => .ok validator
  | none => refuse 500 "internal error"

def validateRawDeploy (rt : RuntimeTracer) (req : ProcessRequest) (tx : TxParams) :
    Except ProcessError SendGate := do
  let (user, memberships) ← sendIdentity p req.userID sendTraceDenyTracerError
    sendTraceDenyTracerError
  match p.traceValidator with
  | none => return {}
  | some validator =>
      validateDeployWithTracing p rt validator user.id tx (membershipOrgs memberships)
        (membershipsHaveDeployClaim p.accessCtrl.store memberships)

def validateRawTransaction (rt : RuntimeTracer) (req : ProcessRequest) (tx : TxParams)
    (prepared : Option (SignedTx × Prepared)) : Except ProcessError SendGate :=
  match prepared with
  | some (signed, prepared) =>
      if prepared.plainValueTransfer then .ok { evidence := [.preflighted signed prepared] }
      else do
        let validator ← rawValidator p
        validateRawTxWithPreparedTrace p rt validator req signed tx prepared
  | none =>
      if tx.toAddr ≠ "" then
        if isPlainTransfer rt tx then .ok { evidence := [.noCode tx.toAddr] }
        else do
          let validator ← rawValidator p
          validateRawTxWithTracing p rt validator req tx
      else validateRawDeploy p rt req tx

/-- The access check of a raw transaction, judged as an `eth_sendTransaction`. -/
def rawAccessRequest (req : ProcessRequest) (tx : TxParams) : AccessCheckRequest where
  userExternalID := req.userID
  orgID := req.orgID
  method := "eth_sendTransaction"
  params := buildTxParams tx
  targetAddress := tx.toAddr
  functionSelector := extractSelector tx.data
  requiredClaims := if tx.toAddr = "" then [.deploy] else []

def rawTracer : Except ProcessError RuntimeTracer :=
  match p.runtimeTracer.filter (·.enabled) with
  | some rt => .ok rt
  | none => refuse 403
      "eth_sendRawTransaction requires runtime tracing to be enabled for security validation"

/-- The approval of a preflighted transaction is queued before it is forwarded. -/
def enqueueApproval (prepared : Option (SignedTx × Prepared)) : Except ProcessError Unit :=
  match p.nodeApprovals, prepared with
  | some approvals, some (_, prepared) =>
      orFail (approvals.enqueue prepared) fun _ => approvalDeliveryUnavailable
  | _, _ => .ok ()

/-- The decoded transaction of a raw send. -/
def decodeRawRequest (req : ProcessRequest) :
    Except ProcessError (String × SignedTx × TxParams) := do
  let rawTxHex ← orFail (extractRawTxHex req.params) fun _ =>
    { statusCode := 400, message := "invalid raw transaction" }
  let decoded ← orFail (decodeRawTransaction p.unmarshalBinary rawTxHex) fun _ =>
    { statusCode := 400, message := "failed to decode raw transaction" }
  return (rawTxHex, decoded)

def processRawTransaction (req : ProcessRequest) : Except ProcessError Forward := do
  let rt ← rawTracer p
  let (rawTxHex, _, tx) ← decodeRawRequest p req
  let access ← evaluateAccessRequest p scope (rawAccessRequest req tx)
  strictProfileRejectsVisibleTo p req 1
  onlyIf (p.admitsConcurrent req.userID = false) (.error tooManyConcurrent)
  let prepared ← preparePreflight p req rawTxHex
  let send ← validateRawTransaction p rt req tx prepared
  complianceGate p access tx
  let visibleTo ← privateRecipients p req (extractAndStripRawTxVisibleTo req.params).1 tx
    (tx.toAddr == "")
  let apiKey ← upstreamKey p access
  enqueueApproval p prepared
  return {
    method := req.method
    params := (extractAndStripRawTxVisibleTo req.params).2
    apiKey
    visibleTo
    createTargets := send.createTargets
    access
    evidence := send.evidence }

def isDebugTrace (req : ProcessRequest) : Bool :=
  req.method == "debug_traceTransaction" || req.method == "debug_traceCall" ||
    accessMethod p req == "debug_traceTransaction" || accessMethod p req == "debug_traceCall"

/-- `processDebugTrace` is the client trace path. -/
def process (processDebugTrace : ProcessRequest → Except ProcessError Forward)
    (req : ProcessRequest) : Except ProcessError Forward :=
  if canonicalizeMethod req.method = "eth_sendRawTransaction" then
    processRawTransaction p scope { req with method := canonicalizeMethod req.method }
  else if isDebugTrace p { req with method := canonicalizeMethod req.method } = true then
    processDebugTrace { req with method := canonicalizeMethod req.method }
  else processStandard p scope { req with method := canonicalizeMethod req.method }

end Process

end PrivacySuite.Server
