import PrivacySuite.Explorer.LogFields
import PrivacySuite.Rbac.EventFilter

/-!
# The explorer's rows

`RedactTransactions`, `RedactTransfers` and `RedactInternalTransactions` of
`internal/explorer/redactor.go`. Each takes a page of rows, resolves the viewer's
visibility of their addresses once, and keeps, masks or drops row by row.

A redactor's result is the kept rows and the number of rows that only the
administrator's audit view kept or completed (`RedactStats`). The rows carry the
fields the redactors read or write.
-/

namespace PrivacySuite.Explorer

open Go

/-! ## Rows -/

structure Transaction where
  hash : String
  fromAddr : String
  toAddr : Option String := none
  contractAddress : Option String := none
  value : String := ""
  nonce : Option Nat := none
  inputData : String := ""
  error : Option String := none
  revertReason : Option String := none
  txCategories : List String := []
  tokenTransferCount : Nat := 0
  addressMetadata : Metadata := []
  deriving DecidableEq, Repr

structure TokenTransfer where
  id : Int := 0
  txHash : String
  logIndex : Int := 0
  tokenAddress : String := ""
  fromAddr : String
  toAddr : String
  value : String := ""
  addressMetadata : Metadata := []
  deriving DecidableEq, Repr

structure InternalTransaction where
  id : Int := 0
  txHash : String
  fromAddr : String
  toAddr : Option String := none
  value : String := ""
  input : Option String := none
  output : Option String := none
  error : Option String := none
  addressMetadata : Metadata := []
  deriving DecidableEq, Repr

structure Log where
  txHash : String
  logIndex : Int := 0
  address : String
  topic0 : Option String := none
  topic1 : Option String := none
  topic2 : Option String := none
  topic3 : Option String := none
  data : String := ""
  addressMetadata : Metadata := []
  deriving DecidableEq, Repr

def present (s : Option String) : Option String := s.filter (· ≠ "")

/-- `HasRecipient`, with the recipient. -/
def Transaction.recipient (tx : Transaction) : Option String := present tx.toAddr

structure Redacted (α : Type) where
  rows : List α := []
  adminUserTxsRevealed : Nat := 0

/-! ## The engine -/

/-- The database of the privacy suite. A returned map is a function. -/
structure Database where
  getBatchVisibilityDetailed : (viewerDID : String) → List String → Except String DetailedMap
  getLinkedAddresses : (did : String) → Except String (List String)
  getBatchEventAccess : (viewerDID : String) → List String → Except String (String → Bool)

/-- A decoded call argument: an address as `Hex` prints it, the items of an array,
slice or struct, or anything else. -/
inductive AbiValue where
  | address (hex : String)
  | items (values : List AbiValue)
  | other

structure TxDataBatchResolver where
  getTransactionsByHashes : List String → Except String (List Transaction)
  getLogsByTransactions : List String → Except String (List Log)

structure TxDataResolver where
  getTransaction : String → Except String (Option Transaction)
  getLogsByTransaction : String → Except String (List Log)
  batch : Option TxDataBatchResolver := none

/-- The first topic is lower case. -/
structure EventRuleInfo where
  topic0 : String
  paramRules : List Rbac.ParamRule := []

structure EventRulesResolution where
  wildcard : Bool := false
  rules : List EventRuleInfo := []

/-- A resolver that is not wired is `none`; one that answers with a set of addresses answers
with its membership test. -/
structure RedactionEngine where
  readProfile : Rbac.ReadProfile
  db : Database
  /-- The ABI of a contract in the explorer's own store. -/
  store : Option (String → String) := none
  abiResolver : Option (String → String) := none
  eventRuleChecker : Option ((viewerDID contract : String) → EventRulesResolution) := none
  adminContractsResolver : Option ((viewerDID : String) → List String → String → Bool) := none
  visibleToUnlockResolver : Option ((viewerDID : String) → List String → String → Bool) := none
  dynamicPayloadAllowedResolver : Option (List String → String → Bool) := none
  logParticipantStore : Option (List String → List String → Except String (String → Bool)) := none
  txDataResolver : Option TxDataResolver := none
  pseudonymKey : List UInt8 := []
  /-- `abi.JSON`, `MethodById` and `Inputs.Unpack` of the ABI library. -/
  unpackCalldata : (abiJSON : String) → List UInt8 → Option (List AbiValue) := fun _ _ => none
  pkg : Abi.Package := { json := fun _ => none }

def RedactionEngine.strict (e : RedactionEngine) : Bool := e.readProfile.isStrict

structure RedactOpts where
  visibleTxHashes : String → Bool := fun _ => false
  listedTxHashes : String → Bool := fun _ => false
  parentParticipants : List String := []
  viewerIsAdmin : Bool := false
  orgAdminViewUserTxs : Bool := false

def RedactOpts.adminAuditView (o : RedactOpts) : Bool := o.viewerIsAdmin && o.orgAdminViewUserTxs

/-- The options that apply: under the strict profile no role and no share counts. -/
def RedactOpts.under (o : RedactOpts) (strict : Bool) : RedactOpts :=
  if strict then { parentParticipants := o.parentParticipants } else o

def viewerAddresses (db : Database) (viewerDID : String) : Except String (List String) :=
  if viewerDID = "" then .ok [] else (db.getLinkedAddresses viewerDID).map (·.map toLower)

def isViewers (viewerAddrs : List String) (addr : String) : Bool :=
  addr != "" && viewerAddrs.contains (toLower addr)

def isViewersOpt (viewerAddrs : List String) (addr : Option String) : Bool :=
  (present addr).any (isViewers viewerAddrs)

/-! ## Participation through calldata -/

/-- The `i`-th address parameter of calldata without its prefix; `""` when it is
too short. -/
def calldataAddress (data : List Char) (i : Nat) : String :=
  if data.length < 8 + i * 64 + 64 then ""
  else "0x" ++ String.ofList ((data.drop (8 + i * 64 + 24)).take 40)

/-- The address parameters `isViewerInCalldata` looks at, by selector. -/
def participantParams (selector : String) : List Nat :=
  if selector = "a9059cbb" ∨ selector = "095ea7b3" ∨ selector = "a22cb465" then [0]
  else if selector = "23b872dd" ∨ selector = "42842e0e" ∨ selector = "b88d4fde" ∨
      selector = "f242432a" ∨ selector = "2eb2c2d6" then [0, 1]
  else []

def isViewerInCalldata (inputData : String) (viewerAddrs : List String) : Bool :=
  !viewerAddrs.isEmpty && decide (8 ≤ byteLen inputData) &&
    calldataNames (trimPrefix (toLower inputData) "0x").toList
where
  calldataNames (data : List Char) : Bool :=
    decide (8 ≤ data.length) &&
      (participantParams (String.ofList (data.take 8))).any fun i =>
        viewerAddrs.contains (calldataAddress data i)

mutual

def anyAddressMatches (viewerAddrs : List String) : AbiValue → Bool
  | .address hex => viewerAddrs.contains (toLower hex)
  | .items values => anyItemMatches viewerAddrs values
  | .other => false

def anyItemMatches (viewerAddrs : List String) : List AbiValue → Bool
  | [] => false
  | v :: rest => anyAddressMatches viewerAddrs v || anyItemMatches viewerAddrs rest

end

def isViewerInCalldataABI (e : RedactionEngine) (tx : Transaction) (viewerAddrs : List String) :
    Bool :=
  match e.abiResolver, tx.recipient, decodeHex (trimPrefix (toLower tx.inputData) "0x") with
  | some resolve, some callee, some raw =>
      !viewerAddrs.isEmpty && resolve (toLower callee) != "" && decide (4 ≤ raw.length) &&
        (match e.unpackCalldata (resolve (toLower callee)) raw with
          | some args => anyItemMatches viewerAddrs args
          | none => false)
  | _, _, _ => false

/-! ## Transactions -/

/-- What one pass over a page of transactions has resolved. -/
structure TxPass where
  engine : RedactionEngine
  opts : RedactOpts
  detailed : DetailedMap
  viewerAddrs : List String
  logParticipantTxs : String → Bool := fun _ => false

namespace TxPass

variable (pass : TxPass) (tx : Transaction)

def viewerIsParticipant : Bool :=
  isViewers pass.viewerAddrs tx.fromAddr || isViewersOpt pass.viewerAddrs tx.toAddr ||
    (!pass.engine.strict &&
      (isViewerInCalldata tx.inputData pass.viewerAddrs ||
        isViewerInCalldataABI pass.engine tx pass.viewerAddrs ||
        pass.logParticipantTxs (toLower tx.hash)))

/-- The sender listed the viewer on the transaction. -/
def txVisibleToViewer : Bool := pass.opts.listedTxHashes (toLower tx.hash)

/-- The transfer-participant union keeps the row. -/
def txKeptByUnion : Bool :=
  pass.opts.visibleTxHashes (toLower tx.hash) && !pass.txVisibleToViewer tx

/-- A level after the overrides of the row. -/
def override (level : Option VisibilityLevel) : Option VisibilityLevel :=
  if (pass.viewerIsParticipant tx ∨ pass.txVisibleToViewer tx) ∧
      ((pass.engine.strict ∧ pass.viewerIsParticipant tx) ∨ isNonIdentifiable level) then some .full
  else level

def baseFromLevel : Option VisibilityLevel :=
  if tx.fromAddr = "" then some .full else levelOf pass.detailed (toLower tx.fromAddr)

def baseToLevel : Option VisibilityLevel :=
  match tx.recipient with
  | some recipient => levelOf pass.detailed (toLower recipient)
  | none => some .full

def fromLevel : Option VisibilityLevel := pass.override tx (pass.baseFromLevel tx)

def toLevel : Option VisibilityLevel := pass.override tx (pass.baseToLevel tx)

def bothHidden : Bool :=
  isNonIdentifiable (pass.fromLevel tx) && isNonIdentifiable (pass.toLevel tx)

def deployHidden : Bool := tx.recipient.isNone && isNonIdentifiable (pass.fromLevel tx)

def someHidden : Bool :=
  isNonIdentifiable (pass.fromLevel tx) || isNonIdentifiable (pass.toLevel tx)

def keeps : Bool :=
  (!pass.engine.strict || pass.viewerIsParticipant tx) &&
    (!(pass.bothHidden tx || pass.deployHidden tx) || pass.opts.adminAuditView ||
      pass.txKeptByUnion tx) &&
    (pass.viewerIsParticipant tx || pass.txVisibleToViewer tx || pass.opts.viewerIsAdmin ||
      pass.txKeptByUnion tx || !pass.someHidden tx)

def revealsToAdmin : Bool :=
  (!pass.engine.strict || pass.viewerIsParticipant tx) && pass.opts.adminAuditView &&
    (pass.bothHidden tx || pass.deployHidden tx)

def overrides : RowOverrides where
  viewerIsParticipant := pass.viewerIsParticipant tx
  txVisibleToViewer := pass.txVisibleToViewer tx

def renderContract (row : Transaction) : Transaction :=
  match present tx.contractAddress with
  | none => row
  | some contract =>
      if pass.override tx (levelOf pass.detailed (toLower contract)) = some .full ∨
          pass.override tx (levelOf pass.detailed (toLower contract)) = some .pseudonymous then
        { row with
          contractAddress := some (applyRedaction pass.engine.pseudonymKey contract
            (pass.override tx (levelOf pass.detailed (toLower contract))))
          addressMetadata := setMeta pass.detailed (pass.overrides tx) contract
            (levelOf pass.detailed (toLower contract)) row.addressMetadata }
      else { row with contractAddress := some privateText }

def showFrom (row : Transaction) : Transaction :=
  { row with
    fromAddr := applyRedaction pass.engine.pseudonymKey tx.fromAddr (pass.fromLevel tx)
    addressMetadata := setMeta pass.detailed (pass.overrides tx) tx.fromAddr
      (pass.baseFromLevel tx) row.addressMetadata }

def showTo (row : Transaction) : Transaction :=
  match tx.recipient with
  | none => row
  | some recipient =>
      { row with
        toAddr := some (applyRedaction pass.engine.pseudonymKey recipient (pass.toLevel tx))
        addressMetadata := setMeta pass.detailed (pass.overrides tx) recipient
          (pass.baseToLevel tx) row.addressMetadata }

def renderFrom (row : Transaction) : Transaction :=
  if isNonIdentifiable (pass.fromLevel tx) then { row with fromAddr := privateText, nonce := none }
  else pass.showFrom tx row

def renderTo (row : Transaction) : Transaction :=
  if isNonIdentifiable (pass.toLevel tx) then { row with toAddr := some privateText }
  else pass.showTo tx row

/-- What a row with a hidden side loses beside the side. -/
def stripHidden (row : Transaction) : Transaction :=
  { row with
    value := if pass.opts.adminAuditView then row.value else ""
    inputData := ""
    error := none
    revertReason := none }

/-- The nonce of a participant's counterparty is not shown. -/
def stripNonce (row : Transaction) : Transaction :=
  if pass.engine.strict = false ∧ pass.viewerIsParticipant tx ∧
      isNonIdentifiable (pass.baseFromLevel tx) then { row with nonce := none }
  else row

def render : Transaction :=
  if pass.someHidden tx then
    pass.stripHidden (pass.renderTo tx (pass.renderFrom tx
      (pass.renderContract tx { tx with addressMetadata := [] })))
  else if tx.fromAddr = "" then
    pass.stripNonce tx (pass.showTo tx (pass.renderContract tx { tx with addressMetadata := [] }))
  else
    pass.stripNonce tx (pass.showTo tx (pass.showFrom tx
      (pass.renderContract tx { tx with addressMetadata := [] })))

end TxPass

def removeCategory (cats : List String) (remove : String) : List String := cats.filter (· ≠ remove)

/-- A row without its token transfers; a call keeps a category. `wasListed` is
whether an empty category list may have become empty here. -/
def stripTokenTransfers (wasListed : Bool) (row : Transaction) : Transaction :=
  { row with
    tokenTransferCount := 0
    txCategories :=
      if removeCategory row.txCategories "token_transfer" = [] ∧ wasListed ∧
          row.recipient.isSome then ["contract_call"]
      else removeCategory row.txCategories "token_transfer" }

/-- A row whose token transfers the viewer has no event access to. -/
def tokenTransfersOf (row : Transaction) : Option String :=
  if 0 < row.tokenTransferCount then row.recipient.map toLower else none

/-- The tail of `RedactTransactions`: token transfers need event access. -/
def stripTokenRows (e : RedactionEngine) (viewerDID : String) (viewerIsAdmin : Bool)
    (rows : List Transaction) : Except String (List Transaction) :=
  if e.strict then .ok (rows.map fun row => stripTokenTransfers (!row.txCategories.isEmpty) row)
  else if viewerIsAdmin ∨ (rows.filterMap tokenTransfersOf) = [] then .ok rows
  else do
    let eventAccess ← e.db.getBatchEventAccess viewerDID (rows.filterMap tokenTransfersOf).dedup
    return rows.map fun row =>
      match tokenTransfersOf row with
      | some token => if eventAccess token then row else stripTokenTransfers true row
      | none => row

def extractUniqueAddresses (txs : List Transaction) : List String :=
  ((txs.flatMap fun tx =>
    ([some tx.fromAddr, tx.toAddr, tx.contractAddress].filterMap present)).map toLower).dedup

/-- The transactions of the page whose logs name the viewer. A failed lookup
names nothing. -/
def logParticipants (e : RedactionEngine) (viewerAddrs : List String) (txs : List Transaction) :
    String → Bool :=
  match e.logParticipantStore with
  | some find =>
      if e.strict ∨ viewerAddrs = [] then fun _ => false
      else
        match find viewerAddrs (txs.map fun tx => toLower tx.hash) with
        | .ok found => found
        | .error _ => fun _ => false
  | none => fun _ => false

/-- What `RedactTransactions` resolves before its row loop. -/
def txPass (e : RedactionEngine) (txs : List Transaction) (viewerDID : String) (opts : RedactOpts) :
    Except String TxPass := do
  let detailed ← e.db.getBatchVisibilityDetailed viewerDID (extractUniqueAddresses txs)
  let viewerAddrs ← viewerAddresses e.db viewerDID
  return {
    engine := e
    opts := opts.under e.strict
    detailed
    viewerAddrs
    logParticipantTxs := logParticipants e viewerAddrs txs }

def redactTransactions (e : RedactionEngine) (txs : List Transaction) (viewerDID : String)
    (opts : RedactOpts) : Except String (Redacted Transaction) :=
  if txs = [] then .ok {}
  else do
    let pass ← txPass e txs viewerDID opts
    let rows ← stripTokenRows e viewerDID pass.opts.viewerIsAdmin
      ((txs.filter pass.keeps).map pass.render)
    return { rows, adminUserTxsRevealed := txs.countP pass.revealsToAdmin }

/-! ## Token transfers -/

def transferLogKey (txHash : String) (logIndex : Int) : String :=
  toLower txHash ++ ":" ++ toString logIndex

/-- The distinct transaction hashes of a page, lower case. -/
def distinctHashes (hashes : List String) : List String :=
  ((hashes.map toLower).filter (· ≠ "")).dedup

def strictTxLogs (resolver : TxDataResolver) (hashes : List String) : Except String (List Log) :=
  match resolver.batch with
  | some batch => batch.getLogsByTransactions hashes
  | none => (hashes.mapM resolver.getLogsByTransaction).map List.flatten

/-- The keys of the logs behind the rows that the event decision admits. `redactLogs` is
`RedactLogsWithOpts` for the viewer. -/
def strictAdmittedTransferLogs (e : RedactionEngine)
    (redactLogs : List Log → Except String (List Log)) (transfers : List TokenTransfer)
    (viewerDID : String) : Except String (List String) :=
  match e.txDataResolver with
  | none => .ok []
  | some resolver =>
      if viewerDID = "" ∨ distinctHashes (transfers.map (·.txHash)) = [] then .ok []
      else do
        let logs ← strictTxLogs resolver (distinctHashes (transfers.map (·.txHash)))
        let kept ← redactBehind (logs.filter fun l =>
          ((transfers.filter fun t => toLower t.txHash ≠ "").map fun t =>
            transferLogKey (toLower t.txHash) t.logIndex).contains
              (transferLogKey l.txHash l.logIndex))
        return kept.map fun l => transferLogKey l.txHash l.logIndex
where
  redactBehind (behind : List Log) : Except String (List Log) :=
    if behind = [] then .ok [] else redactLogs behind

/-- What one pass over a page of transfers has resolved. -/
structure TransferPass where
  engine : RedactionEngine
  opts : RedactOpts
  detailed : DetailedMap
  viewerAddrs : List String
  strictAdmitted : List String := []

namespace TransferPass

variable (pass : TransferPass) (t : TokenTransfer)

/-- Under the strict profile taking part reveals nothing. -/
def viewerIsParticipant : Bool :=
  !pass.engine.strict &&
    (isViewers pass.viewerAddrs t.fromAddr || isViewers pass.viewerAddrs t.toAddr)

def txVisibleToViewer : Bool := pass.opts.listedTxHashes (toLower t.txHash)

/-- The zero address is a constant of the protocol, not an identity. -/
def baseLevel (addr : String) : Option VisibilityLevel :=
  if isZeroEVMAddress addr then some .full else levelOf pass.detailed (toLower addr)

def level (addr : String) : Option VisibilityLevel :=
  if (pass.viewerIsParticipant t ∨ pass.txVisibleToViewer t) ∧
      isNonIdentifiable (pass.baseLevel addr) then some .full
  else pass.baseLevel addr

def bothHidden : Bool :=
  isNonIdentifiable (pass.level t t.fromAddr) && isNonIdentifiable (pass.level t t.toAddr)

def someHidden : Bool :=
  isNonIdentifiable (pass.level t t.fromAddr) || isNonIdentifiable (pass.level t t.toAddr)

def keeps : Bool :=
  if pass.engine.strict then pass.strictAdmitted.contains (transferLogKey t.txHash t.logIndex)
  else
    (!pass.bothHidden t || pass.opts.adminAuditView) &&
      (pass.viewerIsParticipant t || pass.txVisibleToViewer t || pass.opts.viewerIsAdmin ||
        !pass.someHidden t)

def revealsToAdmin : Bool :=
  !pass.engine.strict && pass.bothHidden t && pass.opts.adminAuditView

def overrides : RowOverrides where
  viewerIsParticipant := pass.viewerIsParticipant t
  txVisibleToViewer := pass.txVisibleToViewer t

/-- One side of a strict row: the metadata names only what is shown in full. -/
def strictMeta (addr : String) (m : Metadata) : Metadata :=
  if isZeroEVMAddress addr = true ∨ pass.baseLevel addr ≠ some .full then m
  else
    match pass.detailed (toLower addr) with
    | some visibility => m.set (toLower addr) visibility.reason
    | none => m

/-- `renderStrictTransfer`. -/
def renderStrict : TokenTransfer :=
  { t with
    fromAddr := applyRedaction pass.engine.pseudonymKey t.fromAddr (pass.baseLevel t.fromAddr)
    toAddr := applyRedaction pass.engine.pseudonymKey t.toAddr (pass.baseLevel t.toAddr)
    addressMetadata := pass.strictMeta t.toAddr (pass.strictMeta t.fromAddr []) }

/-- The metadata of one side: a hidden one is not named. -/
def sideMeta (addr : String) (m : Metadata) : Metadata :=
  if isNonIdentifiable (pass.level t addr) then m
  else setMeta pass.detailed (pass.overrides t) addr (pass.baseLevel addr) m

/-- A surviving row of the standard profile. -/
def renderStandard : TokenTransfer :=
  { t with
    fromAddr := applyRedaction pass.engine.pseudonymKey t.fromAddr (pass.level t t.fromAddr)
    toAddr := applyRedaction pass.engine.pseudonymKey t.toAddr (pass.level t t.toAddr)
    value := if pass.someHidden t ∧ pass.opts.adminAuditView = false then "" else t.value
    addressMetadata := pass.sideMeta t t.toAddr (pass.sideMeta t t.fromAddr []) }

def render : TokenTransfer :=
  if pass.engine.strict then pass.renderStrict t else pass.renderStandard t

end TransferPass

/-- The admitted logs; the standard profile does not ask for them. -/
def admittedTransferLogs (e : RedactionEngine) (redactLogs : List Log → Except String (List Log))
    (transfers : List TokenTransfer) (viewerDID : String) : Except String (List String) :=
  if e.strict then strictAdmittedTransferLogs e redactLogs transfers viewerDID else .ok []

/-- What `RedactTransfers` resolves before its row loop. -/
def transferPass (e : RedactionEngine) (redactLogs : List Log → Except String (List Log))
    (transfers : List TokenTransfer) (viewerDID : String) (opts : RedactOpts) :
    Except String TransferPass := do
  let detailed ← e.db.getBatchVisibilityDetailed viewerDID
    (((transfers.flatMap fun t => [t.fromAddr, t.toAddr]).filter (· ≠ "")).map toLower).dedup
  let viewerAddrs ← viewerAddresses e.db viewerDID
  let strictAdmitted ← admittedTransferLogs e redactLogs transfers viewerDID
  return { engine := e, opts := opts.under e.strict, detailed, viewerAddrs, strictAdmitted }

/-- The tail of `RedactTransfers`: a row needs event access to its token, unless
the strict decision admitted it. -/
def filterTokenRows (e : RedactionEngine) (viewerDID : String) (viewerIsAdmin : Bool)
    (rows : List TokenTransfer) : Except String (List TokenTransfer) :=
  if viewerIsAdmin ∨ (rows.map (·.tokenAddress)).filter (· ≠ "") = [] then .ok rows
  else do
    let eventAccess ← e.db.getBatchEventAccess viewerDID
      (((rows.map (·.tokenAddress)).filter (· ≠ "")).map toLower).dedup
    return rows.filter fun row => e.strict || eventAccess (toLower row.tokenAddress)

def redactTransfers (e : RedactionEngine) (redactLogs : List Log → Except String (List Log))
    (transfers : List TokenTransfer) (viewerDID : String) (opts : RedactOpts) :
    Except String (Redacted TokenTransfer) :=
  if transfers = [] then .ok {}
  else do
    let pass ← transferPass e redactLogs transfers viewerDID opts
    let rows ← filterTokenRows e viewerDID pass.opts.viewerIsAdmin
      ((transfers.filter pass.keeps).map pass.render)
    return { rows, adminUserTxsRevealed := transfers.countP pass.revealsToAdmin }

/-! ## Internal transactions -/

/-- What one pass over a page of internal transactions has resolved. -/
structure InternalPass where
  engine : RedactionEngine
  opts : RedactOpts
  detailed : DetailedMap
  viewerAddrs : List String
  /-- The parent transactions, by lower-case hash. -/
  parents : String → Option Transaction := fun _ => none

namespace InternalPass

variable (pass : InternalPass) (t : InternalTransaction)

def parentParties : List String :=
  if pass.engine.strict then
    match pass.parents (toLower t.txHash) with
    | some parent => ([some parent.fromAddr, parent.toAddr].filterMap present).map toLower
    | none => []
  else (pass.opts.parentParticipants.filter (· ≠ "")).map toLower

def viewerIsParentParticipant : Bool := (pass.parentParties t).any pass.viewerAddrs.contains

/-- The viewer takes part in the frame; under the strict profile, in a parent of
theirs. -/
def viewerIsParticipant : Bool :=
  (isViewers pass.viewerAddrs t.fromAddr || isViewersOpt pass.viewerAddrs t.toAddr) &&
    (!pass.engine.strict || pass.viewerIsParentParticipant t)

def txVisibleToViewer : Bool := pass.opts.listedTxHashes (toLower t.txHash)

/-- A party of a parent transaction of the viewer. -/
def isParentParty (key : String) : Bool :=
  pass.viewerIsParentParticipant t && (pass.parentParties t).contains key

/-- A level after the overrides of the row; `addr` is the side it is the level of. -/
def override (addr : String) (level : Option VisibilityLevel) : Option VisibilityLevel :=
  if isNonIdentifiable level ∧ (pass.viewerIsParticipant t ∨ pass.txVisibleToViewer t ∨
      (addr ≠ "" ∧ pass.isParentParty t (toLower addr))) then some .full
  else level

def baseFromLevel : Option VisibilityLevel := levelOf pass.detailed (toLower t.fromAddr)

def baseToLevel : Option VisibilityLevel :=
  match present t.toAddr with
  | some callee => levelOf pass.detailed (toLower callee)
  | none => some .full

def fromLevel : Option VisibilityLevel := pass.override t t.fromAddr (pass.baseFromLevel t)

def toLevel : Option VisibilityLevel := pass.override t (t.toAddr.getD "") (pass.baseToLevel t)

def bothHidden : Bool := isNonIdentifiable (pass.fromLevel t) && isNonIdentifiable (pass.toLevel t)

def someHidden : Bool := isNonIdentifiable (pass.fromLevel t) || isNonIdentifiable (pass.toLevel t)

def admitted : Bool := !pass.engine.strict || pass.viewerIsParentParticipant t

def keeps : Bool := pass.admitted t && (!pass.bothHidden t || pass.opts.adminAuditView)

def revealsToAdmin : Bool := pass.admitted t && pass.bothHidden t && pass.opts.adminAuditView

def overrides : RowOverrides where
  viewerIsParticipant := pass.viewerIsParticipant t
  parentParty := pass.isParentParty t
  txVisibleToViewer := pass.txVisibleToViewer t

def renderFrom (row : InternalTransaction) : InternalTransaction :=
  if isNonIdentifiable (pass.fromLevel t) then { row with fromAddr := privateText }
  else
    { row with
      fromAddr := applyRedaction pass.engine.pseudonymKey t.fromAddr (pass.fromLevel t)
      addressMetadata := setMeta pass.detailed (pass.overrides t) t.fromAddr
        (pass.baseFromLevel t) row.addressMetadata }

def renderTo (row : InternalTransaction) : InternalTransaction :=
  if isNonIdentifiable (pass.toLevel t) then { row with toAddr := some privateText }
  else
    match present t.toAddr with
    | none => row
    | some callee =>
        { row with
          toAddr := some (applyRedaction pass.engine.pseudonymKey callee (pass.toLevel t))
          addressMetadata := setMeta pass.detailed (pass.overrides t) callee
            (pass.baseToLevel t) row.addressMetadata }

/-- What a row with a hidden side loses beside the side. The amount stays for the
audit view and for a strict parent participant. -/
def stripHidden (row : InternalTransaction) : InternalTransaction :=
  if pass.someHidden t then
    { row with
      value :=
        if pass.opts.adminAuditView = true ∨
            (pass.engine.strict = true ∧ pass.viewerIsParentParticipant t = true) then row.value
        else ""
      input := none
      output := none
      error := none }
  else row

def render : InternalTransaction :=
  pass.stripHidden t (pass.renderTo t (pass.renderFrom t { t with addressMetadata := [] }))

end InternalPass

/-- `strictParentTxs`, by lower-case hash. In a batch the last of several answers
for one hash counts. -/
def strictParentTxs (e : RedactionEngine) (itxs : List InternalTransaction) :
    Except String (String → Option Transaction) :=
  match e.txDataResolver with
  | none => .ok fun _ => none
  | some resolver =>
      if distinctHashes (itxs.map (·.txHash)) = [] then .ok fun _ => none
      else
        match resolver.batch with
        | some batch => do
            let txs ← batch.getTransactionsByHashes (distinctHashes (itxs.map (·.txHash)))
            return fun hash => txs.reverse.find? fun tx => toLower tx.hash == hash
        | none => do
            let found ← (distinctHashes (itxs.map (·.txHash))).mapM fun hash => do
              let tx ← resolver.getTransaction hash
              return (hash, tx)
            return fun hash => (found.lookup hash).join

def parentTxs (e : RedactionEngine) (itxs : List InternalTransaction) :
    Except String (String → Option Transaction) :=
  if e.strict then strictParentTxs e itxs else .ok fun _ => none

/-- What `RedactInternalTransactions` resolves before its row loop. -/
def internalPass (e : RedactionEngine) (itxs : List InternalTransaction) (viewerDID : String)
    (opts : RedactOpts) : Except String InternalPass := do
  let parents ← parentTxs e itxs
  let detailed ← e.db.getBatchVisibilityDetailed viewerDID
    ((itxs.flatMap fun t => [some t.fromAddr, t.toAddr].filterMap present).map toLower).dedup
  let viewerAddrs ← viewerAddresses e.db viewerDID
  return { engine := e, opts := opts.under e.strict, detailed, viewerAddrs, parents }

def redactInternalTransactions (e : RedactionEngine) (itxs : List InternalTransaction)
    (viewerDID : String) (opts : RedactOpts) : Except String (Redacted InternalTransaction) :=
  if itxs = [] then .ok {}
  else do
    let pass ← internalPass e itxs viewerDID opts
    return {
      rows := (itxs.filter pass.keeps).map pass.render
      adminUserTxsRevealed := itxs.countP pass.revealsToAdmin }

end PrivacySuite.Explorer
