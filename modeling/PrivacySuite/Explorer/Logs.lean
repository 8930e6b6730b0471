import PrivacySuite.Explorer.Rows

/-!
# The explorer's logs

`RedactLogsWithOpts` of `internal/explorer/redactor.go`. A call resolves what it
needs about a whole list of logs in phases (visibility of the emitters, then of the
addresses in topics, then of the addresses in data; ABIs; event rules and
privileges) and then judges and renders log by log. What the phases leave behind is
a `LogPass`.
-/

namespace PrivacySuite.Explorer

open Go Rbac

/-! ## Lists of logs -/

def Log.topicFields (l : Log) : List (Option String) := [l.topic0, l.topic1, l.topic2, l.topic3]

/-- The topics before the first that is absent. -/
def collectLogTopics (l : Log) : List String :=
  (l.topicFields.takeWhile Option.isSome).reduceOption

/-- The emitter as maps are keyed by it. -/
def Log.emitter (l : Log) : String := toLower l.address

def emittersOf (logs : List Log) : List String :=
  ((logs.filter (·.address ≠ "")).map Log.emitter).dedup

def Log.topicAddresses (l : Log) : List String :=
  l.topicFields.filterMap (·.bind extractTopicAddress)

/-! ## Resolving visibility -/

/-- The entries of a map, with those of a second one written over them. -/
def DetailedMap.mergeWith (base extra : DetailedMap) : DetailedMap := fun key =>
  (extra key).or (base key)

/-- Look up the addresses a map does not have yet. -/
def resolveMore (db : Database) (viewerDID : String) (base : DetailedMap) (addrs : List String) :
    Except String DetailedMap :=
  if addrs.filter (fun a => (base a).isNone) = [] then .ok base
  else
    (db.getBatchVisibilityDetailed viewerDID (addrs.filter fun a => (base a).isNone).dedup).map
      base.mergeWith

/-- `resolveContractABI`; no ABI is the empty text. -/
def RedactionEngine.resolveContractABI (e : RedactionEngine) (addr : String) : String :=
  match e.abiResolver, e.store with
  | some resolve, _ => resolve addr
  | none, some abiOf => abiOf addr
  | none, none => ""

def scansTopics (base : DetailedMap) (isParticipant : Bool) (opts : RedactOpts) (l : Log) : Bool :=
  !(isNonIdentifiable (levelOf base l.emitter) && !isParticipant &&
    !opts.visibleTxHashes (toLower l.txHash))

def scansData (detailed : DetailedMap) (l : Log) : Bool :=
  !isNonIdentifiable (levelOf detailed l.emitter) && l.data != "" && l.topic0.isSome

/-- The ABIs the third phase fetched, those of the emitters of scanned data. -/
def contractABIs (e : RedactionEngine) (logs : List Log) (detailed : DetailedMap) (addr : String) :
    Option String :=
  if (e.store.isSome || e.abiResolver.isSome) &&
      logs.any (fun l => scansData detailed l && l.emitter == addr) then
    some (e.resolveContractABI addr)
  else none

def Log.dataAddresses (e : RedactionEngine) (l : Log) : List String :=
  extractDataAddresses e.pkg l.data (e.resolveContractABI l.emitter) l.topic0

/-- The resolution the server's `dbEventRuleChecker` makes of the event rules of an
access entry. -/
def eventRulesResolution : Option EventRulesField → EventRulesResolution
  | none => {}
  | some field =>
      if field.wildcard then { wildcard := true }
      else { rules := field.rules.map fun rule => ⟨toLower rule.topic0, rule.paramRules⟩ }

/-! ## One pass -/

structure LogPass where
  engine : RedactionEngine
  viewerDID : String
  opts : RedactOpts
  viewerAddrs : List String
  isParticipant : Bool
  emitters : List String
  detailed : DetailedMap
  contractABIs : String → Option String

/-- The phases of `RedactLogsWithOpts` before the loop. -/
def logPass (e : RedactionEngine) (logs : List Log) (viewerDID : String) (opts : RedactOpts)
    (participantAddrs : List String) : Except String LogPass := do
  let viewerAddrs ← viewerAddresses e.db viewerDID
  let base ← e.db.getBatchVisibilityDetailed viewerDID (emittersOf logs)
  let withTopics ← resolveMore e.db viewerDID base
    ((logs.filter (scansTopics base (participantAddrs.any (isViewers viewerAddrs)) opts)).flatMap
      Log.topicAddresses)
  let detailed ← resolveMore e.db viewerDID withTopics
    ((logs.filter (scansData withTopics)).flatMap (Log.dataAddresses e))
  return {
    engine := e
    viewerDID := viewerDID
    opts := opts
    viewerAddrs := viewerAddrs
    isParticipant := participantAddrs.any (isViewers viewerAddrs)
    emitters := emittersOf logs
    detailed := detailed
    contractABIs := contractABIs e logs withTopics }

namespace LogPass

variable (pass : LogPass)

def level (l : Log) : Option VisibilityLevel := levelOf pass.detailed l.emitter

/-! ### Facts -/

def privileged (resolver : Option (String → List String → String → Bool)) (addr : String) : Bool :=
  match resolver with
  | some resolve =>
      pass.viewerDID != "" && !pass.emitters.isEmpty && resolve pass.viewerDID pass.emitters addr
  | none => false

def isAdminContract (addr : String) : Bool :=
  pass.privileged pass.engine.adminContractsResolver addr

/-- `unlockableContracts[addr]`; it is read for listed transactions only. -/
def isUnlockable (addr : String) : Bool := pass.privileged pass.engine.visibleToUnlockResolver addr

def allowsDynamicPayload (addr : String) : Bool :=
  match pass.engine.dynamicPayloadAllowedResolver with
  | some resolve => !pass.emitters.isEmpty && resolve pass.emitters addr
  | none => false

def isListed (l : Log) : Bool := pass.opts.listedTxHashes (toLower l.txHash)

/-- `resolveABIOnce`. -/
def resolvedABI (addr : String) : String :=
  match pass.engine.abiResolver with
  | some resolve => (pass.contractABIs addr).getD (resolve addr)
  | none => ""

def abiForCheck (addr : String) : String :=
  match (pass.contractABIs addr).filter (· ≠ "") with
  | some raw => raw
  | none => pass.resolvedABI addr

/-- `contractABIs[addr]`: parameter rules and field redaction go by this one. -/
def fetchedABI (addr : String) : String := (pass.contractABIs addr).getD ""

/-- The event rules of an emitter, when they have been resolved. -/
def eventRules (addr : String) : Option EventRulesResolution :=
  match pass.engine.eventRuleChecker with
  | some check =>
      if pass.viewerDID ≠ "" ∧ addr ∈ pass.emitters then some (check pass.viewerDID addr) else none
  | none => none

def ruleMatches (topic0 : String) (rule : EventRuleInfo) : Bool := rule.topic0 == toLower topic0

/-- A rule admits a log under an ABI for its parameters. -/
def ruleAdmits (l : Log) (topic0 abiJSON : String) (rule : EventRuleInfo) : Bool :=
  ruleMatches topic0 rule &&
    (rule.paramRules.isEmpty ||
      matchesEventParamRules pass.engine.pkg (collectLogTopics l) l.data rule.paramRules
        pass.viewerAddrs abiJSON)

/-- The allowlist of an emitter; empty in the other modes. -/
def allowlist (addr : String) : List EventRuleInfo :=
  match pass.eventRules addr with
  | some res => if res.wildcard then [] else res.rules
  | none => []

def ruleMode (addr : String) : LogEventRuleMode :=
  match pass.eventRules addr with
  | some res => if res.wildcard then .wildcard else if res.rules.isEmpty then .deny else .allowlist
  | none => .wildcard

/-- The facts about one log, with the parameter rules checked by a given ABI. -/
def factsWith (l : Log) (abiJSON : String) : LogEmitterFacts where
  isAdmin := pass.isAdminContract l.emitter
  unlocked := pass.isUnlockable l.emitter && pass.isListed l
  hasGrant := pass.level l == some .full
  abiResolvable := pass.engine.abiResolver.isNone || pass.resolvedABI l.emitter != ""
  dynamicPayloadDropped :=
    match l.topic0 with
    | some topic0 =>
        pass.abiForCheck l.emitter != "" && !pass.allowsDynamicPayload l.emitter &&
          eventHasDynamicNonIndexedParam pass.engine.pkg (pass.abiForCheck l.emitter) topic0
    | none => false
  isParticipant := pass.isParticipant
  inVisibleTo := pass.isListed l
  rules := pass.ruleMode l.emitter
  hasTopic0 := l.topic0.isSome
  eventAllowed :=
    match l.topic0 with
    | some topic0 => (pass.allowlist l.emitter).any (pass.ruleAdmits l topic0 abiJSON)
    | none => false
  topic0Allowlisted :=
    match l.topic0 with
    | some topic0 => (pass.allowlist l.emitter).any (ruleMatches topic0)
    | none => false
  indexedSelf := pass.engine.strict &&
    indexedSelfMatch pass.engine.pkg (pass.abiForCheck l.emitter) (collectLogTopics l) l.data
      pass.viewerAddrs

def facts (l : Log) : LogEmitterFacts := pass.factsWith l (pass.fetchedABI l.emitter)

/-- The verdict on one log, behind the floor for hidden emitters and the early drop of
emitters with no way in. -/
def verdict (l : Log) : Option LogPayloadPolicy :=
  if pass.level l = some .hidden then none
  else if !(pass.facts l).isAdmin && !(pass.facts l).unlocked && !(pass.facts l).hasGrant then none
  else decideLogEmitter pass.engine.readProfile (pass.facts l)

/-! ### Rendering -/

/-- The reason for an address that stays readable. -/
def setLogMeta (addr : String) (m : Metadata) : Metadata :=
  match pass.detailed (toLower addr) with
  | some vis =>
      if levelOf pass.detailed addr = some .full then m.set (toLower addr) vis.reason else m
  | none => m

def renderEmitter (l : Log) : Log :=
  { l with
    address := applyRedaction pass.engine.pseudonymKey l.address (pass.level l)
    addressMetadata := pass.setLogMeta l.emitter [] }

def redactedFields (l : Log) : List (Option String) × String :=
  redactLogAddressFields pass.engine.pkg l.topicFields l.data (pass.fetchedABI l.emitter) l.topic0
    (levelOf pass.detailed)

def annotated (l : Log) : List String :=
  l.topicAddresses ++
    extractDataAddresses pass.engine.pkg l.data (pass.fetchedABI l.emitter) l.topic0

def renderMasked (l : Log) : Log :=
  if pass.level l = some .redacted then
    { pass.renderEmitter l with
      topic0 := none
      topic1 := none
      topic2 := none
      topic3 := none
      data := "" }
  else
    { pass.renderEmitter l with
      topic0 := ((pass.redactedFields l).1[0]?).join
      topic1 := ((pass.redactedFields l).1[1]?).join
      topic2 := ((pass.redactedFields l).1[2]?).join
      topic3 := ((pass.redactedFields l).1[3]?).join
      data := (pass.redactedFields l).2
      addressMetadata :=
        (pass.annotated l).foldl (fun m a => pass.setLogMeta a m)
          (pass.renderEmitter l).addressMetadata }

def render (l : Log) : LogPayloadPolicy → Log
  | .full => { l with addressMetadata := [] }
  | .masked => pass.renderMasked l

/-- The admitted logs, with the policy each is rendered under. -/
def admitted (logs : List Log) : List (Log × LogPayloadPolicy) :=
  logs.filterMap fun l => (pass.verdict l).map (l, ·)

end LogPass

def redactLogsWithOpts (e : RedactionEngine) (logs : List Log) (viewerDID : String)
    (opts : RedactOpts) (participantAddrs : List String) : Except String (List Log) :=
  if logs = [] then .ok []
  else do
    let pass ← logPass e logs viewerDID opts participantAddrs
    return (pass.admitted logs).map fun admission => pass.render admission.1 admission.2

end PrivacySuite.Explorer
