import PrivacySuite.Rbac.Methods

/-!
# Reading a request

The functions of `internal/rbac/access.go`, `state_overrides.go` and
`storage_slots.go` that read the parameters of a JSON-RPC request: the shape of a
call object, the target and the calldata it names, the block it asks for, and the
override, multicall and storage-slot detectors. Each returns what the source
returns; a detector's `(bool, reason)` pair is an `Option` of the reason.
-/

namespace PrivacySuite.Rbac

open Go

/-! ## Call objects -/

/-- The shape of `params[0]` for a call-like method. -/
inductive CallShape where
  | absent
  | targeted
  | creation
  | malformed
  deriving DecidableEq, Repr

def callShapeFields : List String := ["to", "from", "data", "input", "value"]

/-- Lower case, with `"0x"` read as empty. -/
def normalizeCallHex (s : String) : String :=
  if trimLower s = "0x" then "" else trimLower s

/-- Both fields are there and do not agree. -/
def callDataAndInputDiffer (callObj : List (String × Json)) : Bool :=
  match callObj.lookup "data", callObj.lookup "input" with
  | some data, some input =>
      if data.isNull || input.isNull then false
      else
        match data.asString, input.asString with
        | some d, some i => normalizeCallHex d != normalizeCallHex i
        | _, _ => true
  | _, _ => false

/-- A `to` that names no recipient. -/
def isCreationTo (recipient : String) : Bool :=
  trimLower recipient == "" || trimLower recipient == "0x"

/-- A key that is a case variant of a field the proxy reads. -/
def isCaseVariantKey (key : String) : Bool :=
  callShapeFields.any fun field => key != field && equalFold key field

def classifyCallShape (params : List Json) : CallShape :=
  match params with
  | [] => .absent
  | first :: _ =>
      match first.asObject with
      | none => .malformed
      | some callObj =>
          if callObj.any (fun entry => isCaseVariantKey entry.1) then .malformed
          else if callDataAndInputDiffer callObj then .malformed
          else
            match callObj.lookup "to" with
            | none => .creation
            | some .null => .creation
            | some (.str recipient) => if isCreationTo recipient then .creation else .targeted
            | some _ => .malformed

def callLikeMethods : List String :=
  ["eth_sendtransaction", "eth_estimategas", "eth_call", "eth_createaccesslist"]

/-- The node would run the payload as creation code. -/
def isContractDeployment (method : String) (params : List Json) : Bool :=
  callLikeMethods.contains (trimLower method) &&
    (classifyCallShape params == .creation || classifyCallShape params == .malformed)

/-- The claim an operation needs, if any. -/
def classifyOperation (method : String) (params : List Json) : Option Claim :=
  if isContractDeployment (trimLower method) params then some .deploy else none

/-- A payload string that is not empty up to `normalizeCallHex`. -/
def payloadField (callObj : List (String × Json)) (key : String) : Option String :=
  (stringField callObj key).filter (fun s => normalizeCallHex s != "")

/-- `extractDeploymentBytecode`; `""` when there is none. -/
def extractDeploymentBytecode (method : String) (params : List Json) : String :=
  if callLikeMethods.contains (toLower method) then
    match firstObject params with
    | none => ""
    | some txObj =>
        ((payloadField txObj "data").orElse fun _ => payloadField txObj "input").getD ""
  else ""

/-- A calldata string that is neither empty nor the bare prefix. -/
def calldataField (callObj : List (String × Json)) (key : String) : Option String :=
  (stringField callObj key).filter (fun s => s != "" && s != "0x")

/-- `extractCalldata`; `none` is the nil slice. -/
def extractCalldata (method : String) (params : List Json) : Option (List UInt8) :=
  if method = "eth_sendTransaction" ∨ method = "eth_call" ∨ method = "eth_estimateGas" then do
    let txObj ← firstObject params
    let hexData ← (calldataField txObj "data").orElse fun _ => calldataField txObj "input"
    decodeHex (trimPrefix hexData "0x")
  else none

/-- A calldata field that carries something: `isValueTransferParams` trims it
and accepts both spellings of the bare prefix. -/
def carriesCalldata (callObj : List (String × Json)) (key : String) : Bool :=
  match stringField callObj key with
  | some s => trimSpace s != "" && trimSpace s != "0x" && trimSpace s != "0X"
  | none => false

/-- A call object without calldata. -/
def isValueTransferParams (params : List Json) : Bool :=
  match firstObject params with
  | none => false
  | some txObj => !carriesCalldata txObj "data" && !carriesCalldata txObj "input"

/-- `GetTargetAddress`; `""` when the request names no target. -/
def getTargetAddress (method : String) (params : List Json) : String :=
  match params with
  | [] => ""
  | first :: _ =>
      if method = "eth_call" ∨ method = "eth_estimateGas" ∨ method = "eth_createAccessList" then
        match first.asObject.bind (stringField · "to") with
        | some recipient => if isCreationTo recipient then "" else toLower recipient
        | none => ""
      else if method = "eth_sendTransaction" then
        match first.asObject.bind (stringField · "to") with
        | some recipient => if isCreationTo recipient then "" else trimLower recipient
        | none => ""
      else if method = "eth_getCode" ∨ method = "eth_getStorageAt" ∨ method = "eth_getBalance" ∨
          method = "eth_getTransactionCount" ∨ method = "eth_getProof" then
        match first.asString with
        | some addr => toLower addr
        | none => ""
      else if method = "eth_getLogs" then
        match first.asObject.bind (·.lookup "address") with
        | some (.str addr) => toLower addr
        | some (.arr (.str addr :: _)) => toLower addr
        | _ => ""
      else ""

/-- The first ten bytes of the calldata field. -/
def getFunctionSelector (method : String) (params : List Json) : String :=
  if method = "eth_call" ∨ method = "eth_estimateGas" ∨ method = "eth_sendTransaction" then
    match firstObject params with
    | none => ""
    | some callObj =>
        match (stringField callObj "data").filter (fun s => decide (10 ≤ byteLen s)),
            (stringField callObj "input").filter (fun s => decide (10 ≤ byteLen s)) with
        | some data, _ => toLower (sliceTo data 10)
        | none, some input => toLower (sliceTo input 10)
        | none, none => ""
  else ""

/-! ## `eth_getLogs` filters -/

/-- The non-empty address strings, lower case. -/
def extractGetLogsAddresses (filter : List (String × Json)) : List String :=
  match filter.lookup "address" with
  | some (.str addr) => if addr ≠ "" then [toLower addr] else []
  | some (.arr items) =>
      items.filterMap fun item =>
        match item with
        | .str addr => if addr ≠ "" then some (toLower addr) else none
        | _ => none
  | _ => []

/-! ## Historical state -/

/-- The position of the block parameter of a method, lower case. -/
def blockParamIndex (method : String) : Option Nat :=
  if method = "eth_call" ∨ method = "eth_getbalance" ∨ method = "eth_getcode" ∨
      method = "eth_gettransactioncount" then some 1
  else if method = "eth_getstorageat" ∨ method = "eth_getproof" then some 2
  else if method = "debug_tracecall" then some 1
  else none

/-- A block given as anything but a string counts as historical. -/
def extractBlockParam (method : String) (params : List Json) : String :=
  match blockParamIndex (toLower method) with
  | none => "latest"
  | some i =>
      match params[i]? with
      | none => "latest"
      | some .null => "latest"
      | some (.str block) => if block = "" then "latest" else block
      | some _ => "historical"

/-- The block tags that are not historical. -/
def namedBlockTags : List String := ["latest", "pending", "safe", "finalized", "earliest"]

/-- Neither empty nor a named tag. -/
def isHistoricalBlock (block : String) : Bool :=
  block != "" && !(namedBlockTags.contains (toLower block))

def historicalCheckMethods : List String :=
  ["eth_call", "eth_getstorageat", "eth_getbalance", "eth_getcode", "eth_gettransactioncount",
   "eth_getproof", "debug_tracecall"]

/-- `IsHistoricalStateQuery`, with the reason it gives. -/
def isHistoricalStateQuery (method : String) (params : List Json) : Option String :=
  if historicalCheckMethods.contains (trimLower method) &&
      isHistoricalBlock (extractBlockParam (trimLower method) params) then
    some "historical state queries not permitted"
  else none

def AccessCheckRequest.historicalStateQuery (r : AccessCheckRequest) : Option String :=
  r.methodsToJudge.findSome? fun m => isHistoricalStateQuery m r.params

/-! ## Multicall -/

def multicallAddresses : List String :=
  ["0xca11bde05977b3631167028862be2a173976ca11", "0x5ba1e12693dc8f9c48aad8770482f4739beed696",
   "0xeefba1e63905ef1d7acba5a8513c70307c1ce441"]

def multicallSelectors : List String :=
  ["0x252dba42", "0x82ad56cb", "0x174dea71", "0xc3077fa9", "0xbce38bd7", "0x399542e9"]

def isMulticallData (data : String) : Bool :=
  decide (10 ≤ byteLen data) && multicallSelectors.contains (toLower (sliceTo data 10))

/-- The calldata `DetectMulticall` looks at: `data`, or `input` when `data` is
absent, empty or the bare prefix. -/
def multicallCalldata (callObj : List (String × Json)) : Option String :=
  ((stringField callObj "data").filter (fun s => s != "" && s != "0x")).orElse
    fun _ => (stringField callObj "input").filter (· != "")

/-- `DetectMulticall`, with its reason. -/
def detectMulticall (method : String) (params : List Json) : Option String :=
  if method = "eth_call" ∨ method = "eth_estimateGas" ∨ method = "eth_sendTransaction" then do
    let callObj ← firstObject params
    let recipient ← (stringField callObj "to").filter
      (fun a => a != "" && multicallAddresses.contains (toLower a))
    let data ← multicallCalldata callObj
    if isMulticallData data then
      some ("multicall to " ++ recipient ++ " detected - inner calls cannot be validated")
    else none
  else none

/-! ## State and block overrides -/

/-- The audit label of a refused override. -/
inductive OverrideKind where
  | state
  | block
  | malformed
  deriving DecidableEq, Repr

def maxOverrideAwareParams : Nat := 4

def eip1898BlockKeys : List String := ["blockNumber", "blockHash", "requireCanonical"]

def debugOverrideKeys : List (String × OverrideKind) :=
  [("stateOverrides", .state), ("stateOverride", .state), ("blockOverrides", .block),
   ("blockOverride", .block), ("txIndex", .block)]

def keyFoldsTo (key name : String) : Bool := equalFold key name || toLower key == toLower name

def isEIP1898BlockKey (key : String) : Bool := eip1898BlockKeys.any (equalFold key)

def classifyBlockRefSlot (params : List Json) (idx : Nat) : Option OverrideKind :=
  match params[idx]? with
  | none => none
  | some .null => none
  | some (.str _) => none
  | some (.obj entries) =>
      if entries.any (fun entry => !isEIP1898BlockKey entry.1) then some .state else none
  | some _ => some .malformed

/-- `classifyOverrideSlot` / `classifyOverrideValue`. -/
def classifyOverrideSlot (params : List Json) (idx : Nat) (kind : OverrideKind) :
    Option OverrideKind :=
  match params[idx]? with
  | none => none
  | some .null => none
  | some (.obj []) => none
  | some (.obj _) => some kind
  | some _ => some .malformed

def detectStateOverrideForMethod (resolved : String) (params : List Json) : Option OverrideKind :=
  if resolved = "eth_call" ∨ resolved = "eth_estimateGas" ∨ resolved = "eth_createAccessList" then
    if maxOverrideAwareParams < params.length then some .malformed
    else
      (classifyBlockRefSlot params 1).orElse fun _ =>
        if resolved = "eth_createAccessList" ∧ ((params[2]?).bind Json.asBool).isSome then
          classifyOverrideSlot params 3 .block
        else
          (classifyOverrideSlot params 2 .state).orElse fun _ =>
            classifyOverrideSlot params 3 .block
  else if resolved = "debug_traceCall" then do
    let cfg ← (params[2]?).bind Json.asObject
    cfg.findSome? fun entry => (debugOverrideKeys.find? (keyFoldsTo entry.1 ·.1)).map (·.2)
  else none

/-- The raw name first, then the alias target. -/
def detectStateOverride (reg : MethodRegistry) (method : String) (params : List Json) :
    Option OverrideKind :=
  (detectStateOverrideForMethod (canonicalizeMethod method) params).orElse fun _ =>
    if canonicalizeMethod (reg.resolveMethodAlias (canonicalizeMethod method)) ≠
        canonicalizeMethod method then
      detectStateOverrideForMethod
        (canonicalizeMethod (reg.resolveMethodAlias (canonicalizeMethod method))) params
    else none

/-! ## Storage slots -/

/-- The EIP-1967 slots and the EIP-2535 slot. -/
def wellKnownStorageSlots : List String :=
  ["0x360894a13ba1a3210667c828492db98dca3e2076cc3735a920a3ca505d382bbc",
   "0xb53127684a568b3173ae13b9f8a6016e243e63b6e8ee1178d6a717850b5d6103",
   "0xa3f0ad74e5423aebfd80d3ef4346578335a9a72aeaee59ff6cb3582b35133d50",
   "0xc8fcad8db84d3cc18b4c41d551ea0ee66dd599cde068d998e57d5e09332c131c"]

def isWellKnownStorageSlot (slot : String) : Bool :=
  slot != "" &&
    wellKnownStorageSlots.contains
      (if hasPrefix (trimLower slot) "0x" then trimLower slot else "0x" ++ trimLower slot)

def isStorageReadMethod (method : String) : Bool :=
  method == "eth_getStorageAt" || method == "eth_getProof"

/-- `requestedStorageKeys`; `none` is the malformed answer. -/
def requestedStorageKeys (method : String) (params : List Json) : Option (List String) :=
  if method = "eth_getStorageAt" then some [((params[1]?).bind Json.asString).getD ""]
  else if method = "eth_getProof" then do
    let list ← (params[1]?).bind Json.asArray
    list.mapM Json.asString
  else none

def isBasicAddressQuery (method : String) : Bool :=
  method == "eth_getBalance" || method == "eth_getTransactionCount"

end PrivacySuite.Rbac
