import PrivacySuite.Rbac.EventAbi
import PrivacySuite.Rbac.LogDecision
import PrivacySuite.Rbac.Models

/-!
# The RPC log filter

`FilterEventLogsDetailed` of `internal/rbac/event_filter.go`, with the parameter
rules (`event_param_rules.go`) and the strict profile's matcher
(`indexed_self.go`) it shares with the explorer.

The memo tables of one pass (parsed ABIs) are left out: they hold the values the
calls return. A parameter rule's position counts from zero; the filter's readers of
topics take a negative one to name nothing.
-/

namespace PrivacySuite.Rbac

open Go Abi

/-! ## Values in topics and data -/

/-- `new(big.Int).SetString(s, 16)`. -/
def bigHex (s : String) : Option Int :=
  match s.toList with
  | '-' :: digits => (magnitude digits).map fun n => -(n : Int)
  | '+' :: digits => (magnitude digits).map fun n => (n : Int)
  | digits => (magnitude digits).map fun n => (n : Int)
where
  magnitude (digits : List Char) : Option Nat :=
    if digits = [] then none
    else digits.foldlM (fun n ch => (hexDigit ch).map (16 * n + ·)) 0

/-- `strings.TrimLeft(s, "0")`. -/
def trimZeros (s : String) : String := String.ofList (s.toList.dropWhile (· == '0'))

def isHexValue (s : String) : Bool :=
  decide (4 ≤ byteLen s) && hasPrefix s "0x" && (decodeHex (trimPrefix s "0x")).isSome

/-- The text of a value without prefix, lower case. -/
def bareHex (s : String) : String := toLower (trimPrefix s "0x")

def topicMatchesAddr (topic : String) (addrs : List String) : Bool :=
  match paddedAddress topic with
  | some addr => addrs.contains addr
  | none => false

/-- A boolean as hexadecimal text: `1` or nothing after the leading zeros. -/
def bareBool (digits : String) : Option Bool :=
  if trimZeros digits = "1" then some true
  else if trimZeros digits = "" then some false
  else none

def topicMatchesHexTyped (topic mustBe abiType : String) : Bool :=
  if byteLen (bareHex topic) ≠ 64 then false
  else if abiType = "address" then
    if byteLen (bareHex mustBe) = 40 then
      ((bareHex topic).toList.take 24).all (· == '0') &&
        (bareHex topic).toList.drop 24 == (bareHex mustBe).toList
    else if byteLen (bareHex mustBe) = 64 then bareHex topic == bareHex mustBe
    else false
  else if hasPrefix abiType "uint" then
    match bigHex (bareHex topic), bigHex (bareHex mustBe) with
    | some n, some m => n == m
    | _, _ => false
  else if abiType = "bool" then
    match bareBool (bareHex topic), bareBool (bareHex mustBe) with
    | some a, some b => a == b
    | _, _ => false
  else if 64 < byteLen (bareHex mustBe) then false
  else
    bareHex topic ==
      String.ofList (List.replicate (64 - byteLen (bareHex mustBe)) '0') ++ bareHex mustBe

/-- The value of the non-indexed parameter at a position of the declaration. -/
def dataParam (pkg : Package) (data : String) (ev : Event) (position : Nat) : Option Unpacked :=
  if data = "" ∨ data = "0x" then none
  else do
    let bytes ← decodeHex (trimPrefix data "0x")
    let values ← pkg.unpack ev.nonIndexed bytes
    values[((ev.inputs.take position).filter (!·.indexed)).length]?

def dataParamMatchesAddr (pkg : Package) (data : String) (ev : Event) (position : Nat)
    (addrs : List String) : Bool :=
  match dataParam pkg data ev position with
  | some (.address bytes) => addrs.contains ("0x" ++ encodeHex bytes)
  | _ => false

def compareDecodedValue (mustBe : String) : Unpacked → Bool
  | .address bytes =>
      encodeHex bytes == bareHex mustBe ||
        (byteLen (bareHex mustBe) == 64 &&
          (bareHex mustBe).toList.drop 24 == (encodeHex bytes).toList)
  | .bigInt n => bigHex (bareHex mustBe) == some n
  | .bool b => bareBool (bareHex mustBe) == some b
  | .bytes32 bytes => encodeHex bytes == bareHex mustBe
  | .other => false

def dataParamMatchesCustom (pkg : Package) (data : String) (ev : Event) (position : Nat)
    (mustBe : String) : Bool :=
  match dataParam pkg data ev position with
  | some value => compareDecodedValue mustBe value
  | none => false

/-! ## Parameter rules -/

def topicAt (topics : List String) (i : Int) : Option String :=
  if i < 0 then none else topics[i.toNat]?

def inputAt (ev : Event) (i : Int) : Option Argument :=
  if i < 0 then none else ev.inputs[i.toNat]?

def indexedTopicSlot (ev : Event) (position : Nat) : Nat :=
  ((ev.inputs.take position).filter (·.indexed)).length + 1

/-- Without a declaration the position is taken for the topic after the first. -/
def matchesParamSelf (pkg : Package) (topics : List String) (data : String) (index : Int)
    (addrs : List String) : Option Event → Bool
  | none => (topicAt topics (index + 1)).any (topicMatchesAddr · addrs)
  | some ev =>
      match inputAt ev index with
      | none => false
      | some input =>
          if input.indexed then
            (topics[indexedTopicSlot ev index.toNat]?).any (topicMatchesAddr · addrs)
          else dataParamMatchesAddr pkg data ev index.toNat addrs

def matchesParamCustom (pkg : Package) (topics : List String) (data : String) (index : Int)
    (mustBe : String) : Option Event → Bool
  | none => (topicAt topics (index + 1)).any (topicMatchesHexTyped · mustBe "")
  | some ev =>
      match inputAt ev index with
      | none => false
      | some input =>
          if input.indexed then
            (topics[indexedTopicSlot ev index.toNat]?).any
              (topicMatchesHexTyped · mustBe input.type.kind)
          else dataParamMatchesCustom pkg data ev index.toNat mustBe

/-- One parameter rule; a constraint of an unknown kind is never met. -/
def matchesParamRule (pkg : Package) (topics : List String) (data : String) (addrs : List String)
    (ev : Option Event) (rule : ParamRule) : Bool :=
  if rule.mustBe = "self" then matchesParamSelf pkg topics data rule.index addrs ev
  else if isHexValue rule.mustBe then
    matchesParamCustom pkg topics data rule.index rule.mustBe ev
  else false

def paramRuleEvent (pkg : Package) (abiJSON topic0 : String) : Option Event :=
  if abiJSON = "" then none else findEventByTopic0 pkg abiJSON topic0

def matchesEventParamRules (pkg : Package) (topics : List String) (data : String)
    (paramRules : List ParamRule) (addrs : List String) (abiJSON : String) : Bool :=
  if paramRules = [] then true
  else
    match topics with
    | [] => false
    | topic0 :: _ =>
        paramRules.any
          (matchesParamRule pkg topics data addrs (paramRuleEvent pkg abiJSON topic0))

/-! ## The strict profile's matcher -/

def dataDecodes (pkg : Package) (nonIndexed : List AbiType) (data : String) : Bool :=
  match decodeHex (trimPrefix (trimPrefix data "0x") "0X") with
  | none => false
  | some bytes =>
      if nonIndexed = [] then bytes.isEmpty
      else (pkg.unpack nonIndexed bytes).isSome && pkg.repacks nonIndexed bytes

def isTopicWord (topic : String) : Bool :=
  byteLen (toLower topic) == 66 && hasPrefix (toLower topic) "0x" &&
    (decodeHex (trimPrefix (toLower topic) "0x")).isSome

/-- Whether an indexed address names a linked one, when the topics fit their types. -/
def indexedNames (linked : List String) : List AbiType → List String → Option Bool
  | [], _ => some false
  | _ :: _, [] => none
  | t :: ts, topic :: topics =>
      if isTopicWord topic then do
        let here ← topicNames t topic
        let later ← indexedNames linked ts topics
        return here || later
      else none
where
  topicNames (t : AbiType) (topic : String) : Option Bool :=
    match t with
    | .leaf .address => (paddedAddress topic).map linked.contains
    | _ => some false

/-- `none` when the log does not fit the declaration. -/
def eventNamesLinked (pkg : Package) (ev : Event) (topics : List String) (data : String)
    (linked : List String) : Option Bool :=
  if ev.anonymous ∨ topics.length ≠ 1 + ev.indexed.length ∨
      dataDecodes pkg ev.nonIndexed data = false then none
  else indexedNames linked ev.indexed topics.tail

/-- Exactly one layout fits, and it names the viewer. -/
def onlyLayoutNames : (foundLayout : Bool) → List (Option Bool) → Bool
  | foundLayout, [] => foundLayout
  | foundLayout, none :: rest => onlyLayoutNames foundLayout rest
  | foundLayout, some named :: rest =>
      if foundLayout || !named then false else onlyLayoutNames true rest

/-- `IndexedSelfMatcher.Match`. -/
def indexedSelfMatch (pkg : Package) (contractABI : String) (topics : List String) (data : String)
    (linked : List String) : Bool :=
  match topics with
  | [] => false
  | topic0 :: _ =>
      if contractABI = "" ∨ linked = [] then false
      else
        match pkg.json contractABI with
        | none => false
        | some events =>
            onlyLayoutNames false ((events.filter (·.id == toLower topic0)).map
              (eventNamesLinked pkg · topics data linked))

/-! ## Logs as the node sends them -/

structure LogEntry where
  address : String := ""
  topics : List String := []
  data : String := ""
  deriving DecidableEq

/-- `json.Unmarshal(rawLog, &entry)`. -/
def unmarshalLogEntry : Json → Option LogEntry
  | .null => some {}
  | .obj entries => do
      let address ← structField intoString "" entries "address"
      let topics ← structField intoStrings [] entries "topics"
      let data ← structField intoString "" entries "data"
      return { address, topics, data }
  | _ => none

/-- The transaction hash of a log; empty counts as missing. -/
def logTransactionHash : Json → Option String
  | .obj entries => (structField intoString "" entries "transactionHash").filter (· ≠ "")
  | _ => none

/-- `ABIProvider`, with the optional `DynamicPayloadAllower`. -/
structure AbiProvider where
  getContractABI : String → String
  isEventsAllowDynamicPayload : Option (String → Bool) := none

structure TxVisibilityContext where
  viewerDID : String
  txVisibility : String → List String := fun _ => []
  unlockableContracts : String → Bool := fun _ => false
  participantTxHashes : String → Bool := fun _ => false

def isViewerInVisibleTo (visCtx : Option TxVisibilityContext) (rawLog : Json) : Bool :=
  match visCtx, logTransactionHash rawLog with
  | some ctx, some txHash =>
      ctx.viewerDID != "" && (ctx.txVisibility (toLower txHash)).contains ctx.viewerDID
  | _, _ => false

def logTxIsParticipant (visCtx : Option TxVisibilityContext) (rawLog : Json) : Bool :=
  match visCtx, logTransactionHash rawLog with
  | some ctx, some txHash => ctx.participantTxHashes (toLower txHash)
  | _, _ => false

/-! ## Admission -/

/-- What one pass of the filter is given beside the logs. -/
structure LogFilter where
  pkg : Package
  profile : ReadProfile
  perms : Option EffectivePermissions
  userAddresses : List String
  abiProvider : Option AbiProvider
  visCtx : Option TxVisibilityContext
  isAdminByContract : String → Bool

namespace LogFilter

variable (f : LogFilter)

def addrSet : List String := f.userAddresses.map toLower

/-- The emitter's ABI; empty without a provider. -/
def contractABI (contractAddr : String) : String :=
  match f.abiProvider with
  | some provider => provider.getContractABI contractAddr
  | none => ""

/-- The emitter is opted out of the dynamic-payload gate. -/
def allowDynamic (contractAddr : String) : Bool :=
  match f.abiProvider.bind (·.isEventsAllowDynamicPayload) with
  | some allow => allow contractAddr
  | none => false

def eventTopic0Matches (topic0 : String) (rules : List EventRule) : Bool :=
  rules.any fun rule => equalFold rule.topic0 topic0

def eventAllowed (topic0 : String) (entry : LogEntry) (rules : List EventRule)
    (contractAddr : String) : Bool :=
  rules.any fun rule =>
    equalFold rule.topic0 topic0 &&
      (rule.paramRules.isEmpty ||
        matchesEventParamRules f.pkg entry.topics entry.data rule.paramRules f.addrSet
          (f.contractABI contractAddr))

def eventRulesGetRules : Option EventRulesField → List EventRule
  | some field => if field.wildcard then [] else field.rules
  | none => []

/-- How the event rules of an access entry stand. -/
def ruleMode : Option EventRulesField → LogEventRuleMode
  | some field =>
      if field.wildcard then .wildcard else if field.rules = [] then .deny else .allowlist
  | none => .deny

/-- The event rules of the emitter's access entry. -/
def rulesOf (access : Option ContractAccess) : Option EventRulesField := access.bind (·.eventRules)

def facts (perms : EffectivePermissions) (rawLog : Json) (entry : LogEntry) : LogEmitterFacts where
  isAdmin := f.isAdminByContract (toLower entry.address)
  unlocked := (f.visCtx.any (·.unlockableContracts (toLower entry.address))) &&
    isViewerInVisibleTo f.visCtx rawLog
  hasGrant := (perms.getContractAccess (toLower entry.address)).isSome
  abiResolvable := f.abiProvider.isNone || f.contractABI (toLower entry.address) != ""
  dynamicPayloadDropped :=
    match entry.topics with
    | topic0 :: _ =>
        f.contractABI (toLower entry.address) != "" && !f.allowDynamic (toLower entry.address) &&
          eventHasDynamicNonIndexedParam f.pkg (f.contractABI (toLower entry.address)) topic0
    | [] => false
  isParticipant := logTxIsParticipant f.visCtx rawLog
  inVisibleTo := isViewerInVisibleTo f.visCtx rawLog
  rules := ruleMode (rulesOf (perms.getContractAccess (toLower entry.address)))
  hasTopic0 := !entry.topics.isEmpty
  eventAllowed :=
    match entry.topics with
    | topic0 :: _ =>
        f.eventAllowed (toLower topic0) entry
          (eventRulesGetRules (rulesOf (perms.getContractAccess (toLower entry.address))))
          (toLower entry.address)
    | [] => false
  topic0Allowlisted :=
    match entry.topics with
    | topic0 :: _ =>
        eventTopic0Matches (toLower topic0)
          (eventRulesGetRules (rulesOf (perms.getContractAccess (toLower entry.address))))
    | [] => false
  indexedSelf := f.profile.isStrict &&
    indexedSelfMatch f.pkg (f.contractABI (toLower entry.address)) entry.topics entry.data f.addrSet

def verdict (perms : EffectivePermissions) (rawLog : Json) : Option LogPayloadPolicy := do
  let entry ← unmarshalLogEntry rawLog
  decideLogEmitter f.profile (f.facts perms rawLog entry)

end LogFilter

structure AdmittedLog where
  raw : Json
  payload : LogPayloadPolicy

def filterEventLogsDetailed (f : LogFilter) (logs : List Json) : List AdmittedLog :=
  match f.perms with
  | none => []
  | some perms => logs.filterMap fun rawLog => (f.verdict perms rawLog).map (AdmittedLog.mk rawLog)

end PrivacySuite.Rbac
