import PrivacySuite.Rbac.Models

/-!
# RPC method registry

Which JSON-RPC methods exist for the proxy: the built-in catalog, the global
blocklist, operator aliases and passthrough methods, and the default-deny gate
`isForwardableMethod` that decides whether a method can reach the node at all.

The registries filled at startup (`ExtraMethods`, `MethodAliases`,
`PassthroughMethods`) are one record, `MethodRegistry`, that every lookup takes.
-/

namespace PrivacySuite.Rbac

open Go

/-! ## Global blocklist -/

/-- Never allowed, whatever RBAC says. -/
def globalBlockedMethods : List String :=
  ["debug_accountrange", "debug_backtraceat", "debug_blockprofile", "debug_chaindbcompact",
   "debug_chaindbproperty", "debug_cpuprofile", "debug_dbancient", "debug_dbancients",
   "debug_dbget", "debug_dumpblock", "debug_freeosmemory", "debug_freezeclient", "debug_gcstats",
   "debug_getbadblocks", "debug_getheaderrlp", "debug_getmodifiedaccountsbyhash",
   "debug_getmodifiedaccountsbynumber", "debug_gotrace", "debug_intermediateroots",
   "debug_memstats", "debug_mutexprofile", "debug_preimage", "debug_printblock",
   "debug_seedhash", "debug_setblockprofilerate", "debug_setgcpercent", "debug_sethead",
   "debug_setmutexprofilefraction", "debug_stacks", "debug_standardtracebadblocktofile",
   "debug_standardtraceblocktofile", "debug_startcpuprofile", "debug_startgotrace",
   "debug_stopcpuprofile", "debug_stopgotrace", "debug_storagerangeat", "debug_subscribe",
   "debug_tracebadblock", "debug_traceblock", "debug_traceblockbyhash",
   "debug_traceblockbynumber", "debug_traceblockfromfile", "debug_tracechain",
   "debug_unsubscribe", "debug_verbosity", "debug_vmodule", "debug_writeblockprofile",
   "debug_writememprofile", "debug_writemutexprofile", "admin_addpeer", "admin_addtrustedpeer",
   "admin_clearhistory", "admin_datadir", "admin_exportchain", "admin_importchain",
   "admin_nodeinfo", "admin_peers", "admin_removepeer", "admin_removetrustedpeer", "admin_sleep",
   "admin_sleepblocks", "admin_starthttp", "admin_startrpc", "admin_startws", "admin_stophttp",
   "admin_stoprpc", "admin_stopws", "personal_deriveaccount", "personal_ecrecover",
   "personal_importrawkey", "personal_initializewallet", "personal_listaccounts",
   "personal_listwallets", "personal_lockaccount", "personal_newaccount", "personal_openwallet",
   "personal_sendtransaction", "personal_sign", "personal_signtransaction",
   "personal_unlockaccount", "personal_unpair", "miner_gethashrate", "miner_setetherbase",
   "miner_setextra", "miner_setgaslimit", "miner_setgasprice", "miner_setrecommitinterval",
   "miner_start", "miner_stop", "txpool_content", "txpool_contentfrom", "txpool_inspect",
   "txpool_status", "eth_simulatev1", "eth_simulate", "eth_multicallv1", "eth_callmany",
   "eth_callbundle", "eth_sign", "eth_signtransaction", "eth_signtypeddata",
   "eth_signtypeddata_v4", "clique_discard", "clique_getsigners", "clique_getsignersathash",
   "clique_getsnapshot", "clique_getsnapshotathash", "clique_proposals", "clique_propose",
   "clique_status", "les_addbalance", "les_clientinfo", "les_latestcheckpoint",
   "les_priorityclientinfo", "les_serverinfo", "les_setclientparams", "les_setdefaultparams",
   "eth_subscribe", "eth_unsubscribe", "eth_newfilter", "eth_newblockfilter",
   "eth_newpendingtransactionfilter", "eth_getfilterlogs", "eth_getfilterchanges",
   "eth_uninstallfilter"]

/-- Chain metadata, open to any valid user. -/
def orgFreeMetadataMethods : List String :=
  ["eth_blocknumber", "eth_chainid", "eth_gasprice", "net_version", "net_listening",
   "web3_clientversion"]

def blockedMethodPrefixes : List String :=
  ["ops_", "debug_", "admin_", "personal_", "miner_", "txpool_", "clique_", "les_"]

def prefixBlockExemptions : List String := ["debug_tracetransaction", "debug_tracecall"]

def isMethodBlocked (method : String) : Bool :=
  globalBlockedMethods.contains (trimLower method) ||
    (!prefixBlockExemptions.contains (trimLower method) &&
      blockedMethodPrefixes.any (hasPrefix (trimLower method)))

/-- The membership test `orgFreeMetadataMethods[ToLower(TrimSpace(method))]`. -/
def isOrgFreeMetadataMethod (method : String) : Bool :=
  orgFreeMetadataMethods.contains (trimLower method)

/-! ## The built-in catalog -/

def readMethods : List String :=
  ["eth_chainId", "eth_blockNumber", "net_version", "net_listening", "net_peerCount",
   "web3_clientVersion", "web3_sha3", "eth_syncing", "eth_accounts", "eth_getBalance",
   "eth_getCode", "eth_getStorageAt", "eth_getTransactionCount", "eth_getBlockByHash",
   "eth_getBlockByNumber", "eth_getBlockTransactionCountByHash",
   "eth_getBlockTransactionCountByNumber", "eth_getTransactionByHash",
   "eth_getTransactionReceipt", "eth_getTransactionByBlockHashAndIndex",
   "eth_getTransactionByBlockNumberAndIndex", "eth_call", "eth_estimateGas", "eth_gasPrice",
   "eth_maxPriorityFeePerGas", "eth_feeHistory", "eth_getLogs", "eth_newFilter",
   "eth_newBlockFilter", "eth_newPendingTransactionFilter", "eth_getFilterChanges",
   "eth_getFilterLogs", "eth_uninstallFilter"]

def writeMethods : List String :=
  ["eth_sendTransaction", "eth_sendRawTransaction", "eth_sign", "eth_signTransaction",
   "personal_sign", "eth_signTypedData", "eth_signTypedData_v4"]

def traceMethods : List String :=
  ["debug_traceTransaction", "debug_traceCall"]

/-- Granted by exact name only. -/
def canonicalExtraMethods : List String :=
  ["eth_getProof", "eth_createAccessList", "eth_getBlockReceipts"]

/-- The map `canonicalMethodByLower`: every built-in name under its lower-case
form. -/
def canonicalNames : List (String × String) :=
  [("eth_chainid", "eth_chainId"), ("eth_blocknumber", "eth_blockNumber"),
   ("net_version", "net_version"), ("net_listening", "net_listening"),
   ("net_peercount", "net_peerCount"), ("web3_clientversion", "web3_clientVersion"),
   ("web3_sha3", "web3_sha3"), ("eth_syncing", "eth_syncing"), ("eth_accounts", "eth_accounts"),
   ("eth_getbalance", "eth_getBalance"), ("eth_getcode", "eth_getCode"),
   ("eth_getstorageat", "eth_getStorageAt"),
   ("eth_gettransactioncount", "eth_getTransactionCount"),
   ("eth_getblockbyhash", "eth_getBlockByHash"), ("eth_getblockbynumber", "eth_getBlockByNumber"),
   ("eth_getblocktransactioncountbyhash", "eth_getBlockTransactionCountByHash"),
   ("eth_getblocktransactioncountbynumber", "eth_getBlockTransactionCountByNumber"),
   ("eth_gettransactionbyhash", "eth_getTransactionByHash"),
   ("eth_gettransactionreceipt", "eth_getTransactionReceipt"),
   ("eth_gettransactionbyblockhashandindex", "eth_getTransactionByBlockHashAndIndex"),
   ("eth_gettransactionbyblocknumberandindex", "eth_getTransactionByBlockNumberAndIndex"),
   ("eth_call", "eth_call"), ("eth_estimategas", "eth_estimateGas"),
   ("eth_gasprice", "eth_gasPrice"), ("eth_maxpriorityfeepergas", "eth_maxPriorityFeePerGas"),
   ("eth_feehistory", "eth_feeHistory"), ("eth_getlogs", "eth_getLogs"),
   ("eth_newfilter", "eth_newFilter"), ("eth_newblockfilter", "eth_newBlockFilter"),
   ("eth_newpendingtransactionfilter", "eth_newPendingTransactionFilter"),
   ("eth_getfilterchanges", "eth_getFilterChanges"), ("eth_getfilterlogs", "eth_getFilterLogs"),
   ("eth_uninstallfilter", "eth_uninstallFilter"), ("eth_sendtransaction", "eth_sendTransaction"),
   ("eth_sendrawtransaction", "eth_sendRawTransaction"), ("eth_sign", "eth_sign"),
   ("eth_signtransaction", "eth_signTransaction"), ("personal_sign", "personal_sign"),
   ("eth_signtypeddata", "eth_signTypedData"), ("eth_signtypeddata_v4", "eth_signTypedData_v4"),
   ("debug_tracetransaction", "debug_traceTransaction"), ("debug_tracecall", "debug_traceCall"),
   ("eth_getproof", "eth_getProof"), ("eth_createaccesslist", "eth_createAccessList"),
   ("eth_getblockreceipts", "eth_getBlockReceipts")]

example :
    canonicalNames =
      (readMethods ++ writeMethods ++ traceMethods ++ canonicalExtraMethods).map
        fun name => (toLower name, name) := by
  decide +kernel

/-- The canonical spelling of a lower-case name. -/
def canonicalMethodByLower (lower : String) : Option String := canonicalNames.lookup lower

def canonicalizeMethod (method : String) : String :=
  (canonicalMethodByLower (toLower method)).getD method

/-- A built-in method in its canonical spelling, not blocked. -/
def isCatalogMethod (method : String) : Bool :=
  canonicalMethodByLower (toLower method) == some method && !isMethodBlocked method

/-- Methods whose protection is picked by literal name. -/
def specialDispatchMethods : List String :=
  ["eth_sendTransaction", "eth_sendRawTransaction", "debug_traceTransaction", "debug_traceCall",
   "eth_getBlockByHash", "eth_getBlockByNumber", "eth_getBlockTransactionCountByHash",
   "eth_getBlockTransactionCountByNumber"]

/-! ## Operator methods -/

theorem unaliased_nil : ∀ m, isCatalogMethod m = true →
    ([] : List (String × String)).lookup m = none :=
  fun _ _ => rfl

/-- The startup registries of operator-configured methods. `ValidateExtraMethod`
refuses a name that shadows a built-in method, so no built-in method is aliased. -/
structure MethodRegistry where
  extraMethods : List String := []
  methodAliases : List (String × String) := []
  passthroughMethods : List String := []
  builtin_unaliased : ∀ m, isCatalogMethod m = true → methodAliases.lookup m = none := by
    exact unaliased_nil

namespace MethodRegistry

def resolveMethodAlias (reg : MethodRegistry) (method : String) : String :=
  (reg.methodAliases.lookup method).getD method

theorem resolveMethodAlias_catalog (reg : MethodRegistry) {method : String}
    (h : isCatalogMethod method = true) : reg.resolveMethodAlias method = method := by
  rw [resolveMethodAlias, reg.builtin_unaliased method h]
  rfl

/-- `ValidateAliasTarget(method, target) == nil`. -/
def validAliasTarget (target : String) : Bool :=
  isCatalogMethod target && !specialDispatchMethods.contains target

/-- The default-deny method gate. -/
def isForwardableMethod (reg : MethodRegistry) (method : String) : Bool :=
  isCatalogMethod method || reg.passthroughMethods.contains method ||
    match reg.methodAliases.lookup method with
    | some target => validAliasTarget target
    | none => false

def inBuiltinWildcardSet (method : String) : Bool :=
  readMethods.contains method || writeMethods.contains method || traceMethods.contains method

/-- Whether a `"*"` entry grants the method. -/
def inWildcardExpansion (reg : MethodRegistry) (method : String) : Bool :=
  if isMethodBlocked method || reg.passthroughMethods.contains method then false
  else if inBuiltinWildcardSet method then true
  else if reg.extraMethods.contains method then
    match reg.methodAliases.lookup method with
    | some target => reg.isForwardableMethod method && inBuiltinWildcardSet target
    | none => false
  else false

end MethodRegistry

/-- The group method allowlist. -/
def EffectivePermissions.hasMethod (e : EffectivePermissions) (reg : MethodRegistry)
    (method : String) : Bool :=
  reg.isForwardableMethod method &&
    (e.allowedMethods.contains method ||
      (e.allowedMethods.contains "*" && reg.inWildcardExpansion method))

end PrivacySuite.Rbac
