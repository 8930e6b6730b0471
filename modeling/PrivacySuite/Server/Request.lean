import PrivacySuite.Go.Json

/-!
# JSON-RPC requests inside the processor

The part of `internal/server/jsonrpc_processor.go` that reads a request: the
fields of its call object, its block parameter, the recipients of a private send
and the fields of a signed transaction. `params` is what the access decision is
made on and, up to the stripped recipients, what is forwarded; `metadata` holds
the members a send carries beside them.
-/

namespace PrivacySuite.Server

open Go

/-! ## Requests and refusals -/

structure ProcessRequest where
  userID : String
  orgID : String := ""
  method : String
  params : List Json := []
  metadata : List (String × Json) := []
  bypassPermsCache : Bool := false

/-- The reason codes of a refusal; `none` is the empty code. -/
inductive DenialReason where
  | none
  | authRequired
  | methodNotAllowed
  | senderNotLinked
  | invalidRequestShape
  | stateOverrideNotAllowed
  | crossOrg
  | traceDepthExceeded
  | tracingUnavailable
  | deployClaimRequired
  | rateLimited
  | concurrencyLimited
  | upstreamError
  deriving DecidableEq, Repr

structure ProcessError where
  statusCode : Nat
  message : String
  reason : DenialReason := .none
  deriving DecidableEq, Repr

/-! ## Call objects -/

/-- The four strings the processor reads from a call object. -/
structure TxParams where
  fromAddr : String := ""
  toAddr : String := ""
  data : String := ""
  value : String := ""
  deriving DecidableEq, Repr

/-- A field that is not a string reads as empty, and `input` is read only when `data` is not
a string. -/
def extractTxParams (params : List Json) : TxParams :=
  match firstObject params with
  | none => {}
  | some txObj =>
      { fromAddr := (stringField txObj "from").getD ""
        toAddr := (stringField txObj "to").getD ""
        data := ((stringField txObj "data").orElse fun _ => stringField txObj "input").getD ""
        value := (stringField txObj "value").getD "" }

def isSimpleValueTransfer (data : String) : Bool :=
  trimSpace data == "" || trimSpace data == "0x" || trimSpace data == "0X"

def isHexText (digits : List Char) : Bool := digits.all fun ch => (hexDigit ch).isSome

/-- Forty digits, with or without the prefix. -/
def isHexAddress (s : String) : Bool :=
  match s.toList with
  | '0' :: 'x' :: digits => digits.length == 40 && isHexText digits
  | '0' :: 'X' :: digits => digits.length == 40 && isHexText digits
  | digits => digits.length == 40 && isHexText digits

/-! ## The block parameter -/

/-- A lower-case hexadecimal number after the prefix. -/
def isHexBlock (s : String) : Bool :=
  match s.toList with
  | '0' :: 'x' :: ch :: rest => isHexText (ch :: rest)
  | _ => false

def blockTags : List String := ["latest", "earliest", "pending", "safe", "finalized"]

/-- `extractEthCallBlockParam` of a string. -/
def blockOfString (v : String) : Except String Json :=
  if trimLower v = "" then .ok .null
  else if blockTags.contains (trimLower v) then .ok (.str (trimLower v))
  else if isHexBlock (trimLower v) then .ok (.str (trimLower v))
  else if hasPrefix (trimLower v) "0x" ∧ 2 < byteLen (trimLower v) then
    .error "eth_call block tag: not hex"
  else .error "eth_call block tag: unknown"

def checkBlockMember (v : Json) : Bool :=
  match v with
  | .str s => isHexBlock (trimLower s)
  | _ => false

/-- `extractEthCallBlockParam` of an object. -/
def blockOfObject (entries : List (String × Json)) : Except String Json :=
  match entries.lookup "blockNumber", entries.lookup "blockHash" with
  | none, none => .error "eth_call block object: missing blockNumber/blockHash"
  | some _, some _ => .error "eth_call block object: cannot set both blockNumber and blockHash"
  | some number, none =>
      if checkBlockMember number then .ok (.obj entries) else .error "eth_call blockNumber"
  | none, some hash =>
      if checkBlockMember hash then .ok (.obj entries) else .error "eth_call blockHash"

/-- `extractEthCallBlockParam`; `null` when the block is left out. -/
def extractEthCallBlockParam (params : List Json) : Except String Json :=
  match (params[1]? : Option Json) with
  | none => .ok .null
  | some .null => .ok .null
  | some (.str v) => blockOfString v
  | some (.obj entries) => blockOfObject entries
  | some _ => .error "eth_call block param: unsupported type"

/-! ## Recipients of a private send -/

def visibleToMaxSize : Nat := 32

def isDIDChar (ch : Char) : Bool :=
  ch.isAlphanum || ch == ':' || ch == '-' || ch == '_' || ch == '.'

def isValidDID (s : String) : Bool :=
  decide (7 ≤ byteLen s) && decide (byteLen s ≤ 240) && hasPrefix s "did:" &&
    (match (s.toList.drop 4).findIdx? (· == ':') with
      | none => false
      | some colon => decide (0 < colon) && decide (colon + 1 ≠ (s.toList.drop 4).length)) &&
    s.toList.all isDIDChar

def isEthAddress (s : String) : Bool :=
  match s.toList with
  | '0' :: 'x' :: digits => digits.length == 40 && isHexText digits
  | '0' :: 'X' :: digits => digits.length == 40 && isHexText digits
  | _ => false

/-- The strings of a JSON array; anything else is the empty list. -/
def stringItems (v : Json) : List String :=
  match v with
  | .arr items => items.filterMap Json.asString
  | _ => []

def parseVisibleToRawList (v : Option Json) : List String :=
  ((v.map stringItems).getD []).filter (· ≠ "")

/-- The entries of an object without one key. -/
def eraseKey (entries : List (String × Json)) (key : String) : List (String × Json) :=
  entries.filter fun entry => entry.1 ≠ key

/-- `index` is the position of the parameter that may carry recipients. -/
def visibleToFieldPresent (req : ProcessRequest) (index : Nat) : Bool :=
  (req.metadata.lookup "visibleTo").isSome || (req.metadata.lookup "privateFor").isSome ||
    (match req.params[index]? with
      | some (.obj entries) => (entries.lookup "visibleTo").isSome
      | _ => false)

/-- `extractAndStripTopLevelVisibleTo`: the recipients beside the parameters. The
members themselves are never forwarded. -/
def topLevelVisibleTo (req : ProcessRequest) : List String :=
  parseVisibleToRawList (req.metadata.lookup "visibleTo") ++
    parseVisibleToRawList (req.metadata.lookup "privateFor")

/-- The recipients in the transaction object, and the parameters without them. -/
def extractAndStripVisibleTo (params : List Json) : List String × List Json :=
  match params with
  | .obj txObj :: rest =>
      match txObj.lookup "visibleTo" with
      | none => ([], params)
      | some raw =>
          (((stringItems raw).filter isValidDID).eraseDups,
            .obj (eraseKey txObj "visibleTo") :: rest)
  | _ => ([], params)

/-- The options of a raw send are not forwarded when they name recipients. -/
def extractAndStripRawTxVisibleTo (params : List Json) : List String × List Json :=
  match params with
  | raw :: .obj opts :: _ =>
      match opts.lookup "visibleTo" with
      | none => ([], params)
      | some v => ((stringItems v).filter (· ≠ ""), [raw])
  | _ => ([], params)

/-- One recipient: a DID, or an address with a linked DID. Anything else is
dropped. -/
def resolveVisibleToEntry (resolver : Option (String → Except String String)) (entry : String) :
    Option String :=
  if isValidDID entry then some entry
  else if isEthAddress entry then
    match resolver with
    | none => none
    | some resolve =>
        match resolve (toLower entry) with
        | .error _ => none
        | .ok did => if did = "" then none else some did
  else none

def resolveVisibleToEntries (resolver : Option (String → Except String String))
    (entries : List String) : List String :=
  (entries.filterMap (resolveVisibleToEntry resolver)).eraseDups

/-- The refusal of a recipient list that is too long. -/
def visibleToTooLong : ProcessError where
  statusCode := 400
  message := "visibleTo list exceeds maximum size of 32 entries"

def resolveTopLevelVisibleTo (resolver : Option (String → Except String String))
    (topRaw : List String) : Except ProcessError (List String) :=
  if visibleToMaxSize < topRaw.length then .error visibleToTooLong
  else .ok (resolveVisibleToEntries resolver topRaw)

def unionVisibleToDIDs (a b : List String) : List String :=
  if b = [] then a else if a = [] then b else (a ++ b).eraseDups

/-! ## Signed transactions -/

inductive TxType where
  | legacy
  | accessList
  | dynamicFee
  | blob
  | setCode
  deriving DecidableEq, Repr

/-- A decoded transaction, as `types.Transaction` reports it: addresses as `Hex`
prints them, `toAddr = none` for a creation, `sender` the outcome of `Sender`. -/
structure SignedTx where
  txType : TxType := .legacy
  isProtected : Bool := true
  chainID : Nat := 1
  nonce : Nat := 0
  gas : Nat := 0
  gasPrice : Nat := 0
  gasFeeCap : Nat := 0
  gasTipCap : Nat := 0
  toAddr : Option String := none
  value : Nat := 0
  data : List UInt8 := []
  accessList : List (String × List String) := []
  authorizationList : List String := []
  sender : Except String String

def extractRawTxHex (params : List Json) : Except String String :=
  match params with
  | [] => .error "missing transaction parameter"
  | .str raw :: _ => .ok raw
  | _ => .error "transaction parameter must be a string"

def rawTxBytes (rawTxHex : String) : Except String (List UInt8) :=
  match decodeHex (trimPrefix (trimPrefix rawTxHex "0x") "0X") with
  | none => .error "invalid hex"
  | some bytes => .ok bytes

/-- `0x` and the digits of a number, without leading zeros. -/
def hexQuantity (n : Nat) : String := "0x" ++ String.ofList (Nat.toDigits 16 n)

/-- The four strings `decodeRawTransaction` makes of a transaction. -/
def SignedTx.params (tx : SignedTx) (sender : String) : TxParams where
  fromAddr := sender
  toAddr := tx.toAddr.getD ""
  data := if tx.data = [] then "" else "0x" ++ encodeHex tx.data
  value := if tx.value = 0 then "" else hexQuantity tx.value

/-- `decodeRawTransaction`, over the decoder of the transaction library. -/
def decodeRawTransaction (unmarshalBinary : List UInt8 → Except String SignedTx)
    (rawTxHex : String) : Except String (SignedTx × TxParams) := do
  let bytes ← rawTxBytes rawTxHex
  let tx ← unmarshalBinary bytes
  let sender ← tx.sender
  return (tx, tx.params sender)

/-- The call object the access check sees for a raw send. -/
def buildTxParams (tx : TxParams) : List Json :=
  [.obj (("from", .str tx.fromAddr) :: (textEntry "to" tx.toAddr ++ textEntry "data" tx.data ++
    textEntry "value" tx.value))]

def extractSelector (data : String) : String :=
  if byteLen data < 10 then "" else toLower (sliceTo data 10)

end PrivacySuite.Server
