import PrivacySuite.Explorer.LogResolution

/-!
# One verdict for two layers

The RPC filter (`FilterEventLogsDetailed`) and the explorer (`RedactLogsWithOpts`)
resolve the facts about a log on their own and share the decision. Here both are
given the same knowledge about one viewer. What that knowledge says about a log is
written once (`ViewerFacts.logFacts`); the RPC's facts are these, and so are the
explorer's, except that the explorer may check parameter rules without the ABI.
-/

namespace PrivacySuite.Explorer

open Go Abi Rbac LogFilter List

/-- What is known about a viewer. Maps are keyed by lower-case address or hash. -/
structure ViewerFacts where
  viewerDID : String
  profile : ReadProfile
  pkg : Package
  linked : List String
  isAdmin : String → Bool
  isUnlockable : String → Bool
  isListed : String → Bool
  isParty : String → Bool
  /-- The viewer's access entries, with their event rules. -/
  access : EffectivePermissions
  visibility : String → AddressVisibility
  contractABI : String → String
  allowsDynamicPayload : String → Bool

namespace ViewerFacts

variable (v : ViewerFacts)

/-- The filter is run for the viewer. -/
structure KnownToFilter (f : LogFilter) : Prop where
  profile : f.profile = v.profile
  pkg : f.pkg = v.pkg
  perms : f.perms = some v.access
  linked : f.userAddresses = v.linked
  abi : f.abiProvider = some ⟨v.contractABI, some v.allowsDynamicPayload⟩
  admin : f.isAdminByContract = v.isAdmin
  visCtx : ∃ ctx, f.visCtx = some ctx ∧ ctx.viewerDID = v.viewerDID ∧
    ctx.unlockableContracts = v.isUnlockable ∧ ctx.participantTxHashes = v.isParty ∧
    ∀ txHash, (ctx.txVisibility txHash).contains v.viewerDID = v.isListed txHash

/-- The explorer is run for the viewer, over the logs of one transaction. The rules
it is told are those of the access entry, or, for an administrator, all of them. -/
structure KnownToExplorer (e : RedactionEngine) (opts : RedactOpts)
    (participantAddrs : List String) (txHash : String) : Prop where
  profile : e.readProfile = v.profile
  pkg : e.pkg = v.pkg
  linked : e.db.getLinkedAddresses v.viewerDID = .ok v.linked
  visibility : PureVisibility e.db v.viewerDID v.visibility
  abi : e.abiResolver = some v.contractABI
  admin : ∃ resolve, e.adminContractsResolver = some resolve ∧
    ∀ addrs, ∀ a ∈ addrs, resolve v.viewerDID addrs a = v.isAdmin a
  unlockable : ∃ resolve, e.visibleToUnlockResolver = some resolve ∧
    ∀ addrs, ∀ a ∈ addrs, resolve v.viewerDID addrs a = v.isUnlockable a
  dynamicPayload : ∃ resolve, e.dynamicPayloadAllowedResolver = some resolve ∧
    ∀ addrs, ∀ a ∈ addrs, resolve addrs a = v.allowsDynamicPayload a
  rules : ∃ check, e.eventRuleChecker = some check ∧ ∀ a,
    check v.viewerDID a = eventRulesResolution (LogFilter.rulesOf (v.access.getContractAccess a)) ∨
      (v.isAdmin a = true ∧ check v.viewerDID a = { wildcard := true })
  listed : opts.listedTxHashes = v.isListed
  party : participantAddrs.any (isViewers (v.linked.map toLower)) = v.isParty (toLower txHash)

/-! ## The facts about a log -/

def rules (addr : String) : List EventRule :=
  LogFilter.eventRulesGetRules (LogFilter.rulesOf (v.access.getContractAccess addr))

/-- Some rule admits the log, its parameters read by a given ABI. -/
def eventAllowed (l : Log) (abiJSON : String) : Bool :=
  match l.topic0 with
  | some topic0 =>
      (v.rules l.emitter).any fun rule =>
        toLower rule.topic0 == toLower topic0 &&
          (rule.paramRules.isEmpty ||
            matchesEventParamRules v.pkg (collectLogTopics l) l.data rule.paramRules
              (v.linked.map toLower) abiJSON)
  | none => false

def topic0Allowlisted (l : Log) : Bool :=
  match l.topic0 with
  | some topic0 => (v.rules l.emitter).any fun rule => toLower rule.topic0 == toLower topic0
  | none => false

/-- The facts about a log, its parameter rules checked by a given ABI. -/
def logFacts (l : Log) (abiJSON : String) : LogEmitterFacts where
  isAdmin := v.isAdmin l.emitter
  unlocked := v.isUnlockable l.emitter && v.isListed (toLower l.txHash)
  hasGrant := (v.access.getContractAccess l.emitter).isSome
  abiResolvable := v.contractABI l.emitter != ""
  dynamicPayloadDropped :=
    match l.topic0 with
    | some topic0 =>
        v.contractABI l.emitter != "" && !v.allowsDynamicPayload l.emitter &&
          Rbac.eventHasDynamicNonIndexedParam v.pkg (v.contractABI l.emitter) topic0
    | none => false
  isParticipant := v.isParty (toLower l.txHash)
  inVisibleTo := v.isListed (toLower l.txHash)
  rules := LogFilter.ruleMode (LogFilter.rulesOf (v.access.getContractAccess l.emitter))
  hasTopic0 := l.topic0.isSome
  eventAllowed := v.eventAllowed l abiJSON
  topic0Allowlisted := v.topic0Allowlisted l
  indexedSelf := v.profile.isStrict &&
    indexedSelfMatch v.pkg (v.contractABI l.emitter) (collectLogTopics l) l.data
      (v.linked.map toLower)

end ViewerFacts

/-! ## One log in two forms -/

/-- A log of the explorer and the same log as the node sends it. The node spells
absent data `0x`, where the explorer may have the empty text. -/
structure Represents (raw : Json) (l : Log) (entry : LogEntry) : Prop where
  decoded : unmarshalLogEntry raw = some entry
  txHash : logTransactionHash raw = some l.txHash
  address : entry.address = l.address
  emits : l.address ≠ ""
  topics : l.topicFields =
    [entry.topics[0]?, entry.topics[1]?, entry.topics[2]?, entry.topics[3]?]
  count : entry.topics.length ≤ 4
  words : ∀ topic ∈ entry.topics, ∃ w, topicWord topic = some w
  data : entry.data = l.data ∨ (entry.data = "0x" ∧ l.data = "")

namespace Represents

variable {raw : Json} {l : Log} {entry : LogEntry}

theorem topic0 (h : Represents raw l entry) : l.topic0 = entry.topics[0]? :=
  (List.cons.inj h.topics).1

theorem collectLogTopics_eq (h : Represents raw l entry) : collectLogTopics l = entry.topics := by
  rw [collectLogTopics, h.topics]
  have hcount := h.count
  generalize entry.topics = topics at hcount
  match topics, hcount with
  | [], _ => rfl
  | [_], _ => rfl
  | [_, _], _ => rfl
  | [_, _, _], _ => rfl
  | [_, _, _, _], _ => rfl

end Represents

theorem dataParam_absent (pkg : Package) (ev : Event) (position : Nat) :
    dataParam pkg "0x" ev position = dataParam pkg "" ev position := by
  simp [dataParam]

theorem matchesParamRule_absent (pkg : Package) (topics addrs : List String) (ev : Option Event) :
    matchesParamRule pkg topics "0x" addrs ev = matchesParamRule pkg topics "" addrs ev := by
  funext rule
  cases ev with
  | none => rfl
  | some ev =>
    simp only [matchesParamRule, matchesParamSelf, matchesParamCustom, dataParamMatchesAddr,
      dataParamMatchesCustom, dataParam_absent]

theorem dataDecodes_absent (pkg : Package) (types : List AbiType) :
    dataDecodes pkg types "0x" = dataDecodes pkg types "" := by
  have htrim : trimPrefix (trimPrefix "0x" "0x") "0X" = trimPrefix (trimPrefix "" "0x") "0X" := by
    decide +kernel
  delta dataDecodes
  rw [htrim]

namespace Represents

variable {raw : Json} {l : Log} {entry : LogEntry}

theorem matchesEventParamRules_eq (h : Represents raw l entry) (pkg : Package)
    (paramRules : List ParamRule) (addrs : List String) (abiJSON : String) :
    matchesEventParamRules pkg entry.topics entry.data paramRules addrs abiJSON =
      matchesEventParamRules pkg (collectLogTopics l) l.data paramRules addrs abiJSON := by
  rw [h.collectLogTopics_eq]
  rcases h.data with hdata | ⟨hdata, hdata'⟩
  · rw [hdata]
  · rw [hdata, hdata']
    unfold matchesEventParamRules
    simp only [matchesParamRule_absent]

theorem indexedSelfMatch_eq (h : Represents raw l entry) (pkg : Package) (abiJSON : String)
    (linked : List String) :
    indexedSelfMatch pkg abiJSON entry.topics entry.data linked =
      indexedSelfMatch pkg abiJSON (collectLogTopics l) l.data linked := by
  rw [h.collectLogTopics_eq]
  rcases h.data with hdata | ⟨hdata, hdata'⟩
  · rw [hdata]
  · rw [hdata, hdata']
    unfold indexedSelfMatch eventNamesLinked
    simp only [dataDecodes_absent]

end Represents

/-! ## The facts of the filter -/

section Filter

variable {v : ViewerFacts} {f : LogFilter} {raw : Json} {l : Log} {entry : LogEntry}

theorem isViewerInVisibleTo_eq (hf : v.KnownToFilter f) (hviewer : v.viewerDID ≠ "")
    (hr : Represents raw l entry) :
    isViewerInVisibleTo f.visCtx raw = v.isListed (toLower l.txHash) := by
  obtain ⟨ctx, hctx, hdid, -, -, hlisted⟩ := hf.visCtx
  unfold isViewerInVisibleTo
  rw [hctx, hr.txHash]
  simp only [hdid, hlisted, Bool.and_eq_right_iff_imp, bne_iff_ne]
  exact fun _ => hviewer

theorem logTxIsParticipant_eq (hf : v.KnownToFilter f) (hr : Represents raw l entry) :
    logTxIsParticipant f.visCtx raw = v.isParty (toLower l.txHash) := by
  obtain ⟨ctx, hctx, -, -, hparty, -⟩ := hf.visCtx
  unfold logTxIsParticipant
  rw [hctx, hr.txHash]
  simp only [hparty]

theorem filter_contractABI_eq (hf : v.KnownToFilter f) (addr : String) :
    f.contractABI addr = v.contractABI addr := by
  rw [LogFilter.contractABI, hf.abi]

theorem filter_allowDynamic_eq (hf : v.KnownToFilter f) (addr : String) :
    f.allowDynamic addr = v.allowsDynamicPayload addr := by
  rw [allowDynamic, hf.abi]
  rfl

variable {topic0 : String} {rest : List String}

/-- The topic a log's event rules are compared with is text of hexadecimal digits, so
folding case is comparing in lower case. -/
theorem equalFold_topic0 (hr : Represents raw l entry) (htopics : entry.topics = topic0 :: rest)
    (s : String) :
    equalFold s (toLower topic0) = (toLower s == toLower topic0) := by
  obtain ⟨w, hw⟩ := hr.words topic0 (by rw [htopics]; exact mem_cons_self)
  exact equalFold_of_spelled (topicWord_eq_some.mp hw)

theorem topic0_of_cons (hr : Represents raw l entry) (htopics : entry.topics = topic0 :: rest) :
    l.topic0 = some topic0 := by
  rw [hr.topic0, htopics, getElem?_cons_zero]

theorem filter_eventAllowed_eq (hf : v.KnownToFilter f) (hr : Represents raw l entry)
    (htopics : entry.topics = topic0 :: rest) :
    f.eventAllowed (toLower topic0) entry (v.rules l.emitter) l.emitter =
      v.eventAllowed l (v.contractABI l.emitter) := by
  unfold LogFilter.eventAllowed ViewerFacts.eventAllowed
  rw [topic0_of_cons hr htopics]
  simp only [equalFold_topic0 hr htopics, filter_contractABI_eq hf, hf.pkg, addrSet,
    hf.linked, hr.matchesEventParamRules_eq]

theorem filter_topic0_eq (hr : Represents raw l entry) (htopics : entry.topics = topic0 :: rest) :
    eventTopic0Matches (toLower topic0) (v.rules l.emitter) = v.topic0Allowlisted l := by
  unfold eventTopic0Matches ViewerFacts.topic0Allowlisted
  rw [topic0_of_cons hr htopics]
  simp only [equalFold_topic0 hr htopics]

/-- The filter resolves the viewer's facts, with parameter rules checked by the ABI. -/
theorem filter_facts_eq (hf : v.KnownToFilter f) (hviewer : v.viewerDID ≠ "")
    (hr : Represents raw l entry) :
    f.facts v.access raw entry = v.logFacts l (v.contractABI l.emitter) := by
  have hemitter : toLower entry.address = l.emitter := by rw [hr.address, Log.emitter]
  have hunlocked : (f.visCtx.any (·.unlockableContracts l.emitter)) = v.isUnlockable l.emitter := by
    obtain ⟨ctx, hctx, -, hunlockable, -⟩ := hf.visCtx
    rw [hctx, Option.any_some, hunlockable]
  have habi : f.abiProvider.isNone = false := by rw [hf.abi, Option.isNone_some]
  unfold facts ViewerFacts.logFacts
  rw [hemitter, hunlocked, habi, hf.admin, isViewerInVisibleTo_eq hf hviewer hr,
    logTxIsParticipant_eq hf hr, hf.profile, hf.pkg, addrSet, hf.linked,
    filter_contractABI_eq hf, filter_allowDynamic_eq hf, hr.indexedSelfMatch_eq]
  -- What is left reads the first topic.
  cases htopics : entry.topics with
  | nil =>
    have htopic0 : l.topic0 = none := by rw [hr.topic0, htopics, getElem?_nil]
    simp [htopic0, ViewerFacts.eventAllowed, ViewerFacts.topic0Allowlisted]
  | cons topic0 rest =>
    have hallowed := filter_eventAllowed_eq hf hr htopics
    have hlisted := filter_topic0_eq (v := v) hr htopics
    unfold ViewerFacts.rules at hallowed hlisted
    simp [topic0_of_cons hr htopics, hallowed, hlisted]

theorem filter_verdict_eq (hf : v.KnownToFilter f) (hviewer : v.viewerDID ≠ "")
    (hr : Represents raw l entry) :
    f.verdict v.access raw =
      decideLogEmitter v.profile (v.logFacts l (v.contractABI l.emitter)) := by
  rw [verdict, hr.decoded, Option.bind_eq_bind, Option.bind_some,
    filter_facts_eq hf hviewer hr, hf.profile]

end Filter

/-! ## The facts of the explorer -/

section Explorer

variable {v : ViewerFacts} {e : RedactionEngine} {opts : RedactOpts}
  {participantAddrs : List String} {txHash : String} {logs : List Log} {l : Log}

def ViewerFacts.pass (v : ViewerFacts) (e : RedactionEngine) (opts : RedactOpts) (txHash : String)
    (logs : List Log) : LogPass :=
  purePass v.visibility e logs opts (v.isParty (toLower txHash)) v.viewerDID (v.linked.map toLower)

theorem logPass_eq (he : v.KnownToExplorer e opts participantAddrs txHash)
    (hviewer : v.viewerDID ≠ "") (logs : List Log) :
    logPass e logs v.viewerDID opts participantAddrs = .ok (v.pass e opts txHash logs) := by
  have hlinked : viewerAddresses e.db v.viewerDID = .ok (v.linked.map toLower) := by
    rw [viewerAddresses, if_neg hviewer, he.linked]
    rfl
  rw [logPass_pure he.visibility hlinked, he.party, ViewerFacts.pass]

theorem privileged_eq (hviewer : v.viewerDID ≠ "") (hl : l.emitter ∈ emittersOf logs)
    {resolver : Option (String → List String → String → Bool)} {answer : String → Bool}
    (h : ∃ resolve, resolver = some resolve ∧
      ∀ addrs, ∀ a ∈ addrs, resolve v.viewerDID addrs a = answer a) :
    (v.pass e opts txHash logs).privileged resolver l.emitter = answer l.emitter := by
  obtain ⟨resolve, rfl, hresolve⟩ := h
  have hdid : (v.viewerDID != "") = true := by simpa using hviewer
  simp only [LogPass.privileged, ViewerFacts.pass, purePass, emittersOf_isEmpty hl, hdid,
    hresolve _ _ hl,
    Bool.not_false, Bool.true_and]

theorem allowsDynamicPayload_eq (he : v.KnownToExplorer e opts participantAddrs txHash)
    (hl : l.emitter ∈ emittersOf logs) :
    (v.pass e opts txHash logs).allowsDynamicPayload l.emitter =
      v.allowsDynamicPayload l.emitter := by
  obtain ⟨resolve, hresolver, hresolve⟩ := he.dynamicPayload
  simp only [LogPass.allowsDynamicPayload, ViewerFacts.pass, purePass, hresolver,
    emittersOf_isEmpty hl,
    hresolve _ _ hl, Bool.not_false, Bool.true_and]

theorem explorer_eventHasDynamic_eq (pkg : Package) (abiJSON topic0 : String) :
    eventHasDynamicNonIndexedParam pkg abiJSON topic0 =
      Rbac.eventHasDynamicNonIndexedParam pkg abiJSON topic0 := by
  unfold eventHasDynamicNonIndexedParam Rbac.eventHasDynamicNonIndexedParam matchedEvent
  cases findEventByTopic0 pkg abiJSON topic0 <;> by_cases habi : abiJSON = "" <;>
    by_cases htopic : topic0 = "" <;> simp [habi, htopic]

theorem pass_level_eq (hl : l.emitter ∈ emittersOf logs) :
    (v.pass e opts txHash logs).level l = some (v.visibility l.emitter).level :=
  purePass_level hl

theorem pass_eventRules_eq (hviewer : v.viewerDID ≠ "") (hl : l.emitter ∈ emittersOf logs)
    {check : String → String → EventRulesResolution} (hcheck : e.eventRuleChecker = some check) :
    (v.pass e opts txHash logs).eventRules l.emitter = some (check v.viewerDID l.emitter) := by
  have hengine : (v.pass e opts txHash logs).engine = e := rfl
  unfold LogPass.eventRules
  rw [hengine, hcheck]
  exact if_pos ⟨hviewer, hl⟩

theorem pass_ruleMode_eq {addr : String}
    (h : (v.pass e opts txHash logs).eventRules addr =
      some (eventRulesResolution (rulesOf (v.access.getContractAccess addr)))) :
    (v.pass e opts txHash logs).ruleMode addr =
      ruleMode (rulesOf (v.access.getContractAccess addr)) := by
  unfold LogPass.ruleMode
  rw [h]
  cases rulesOf (v.access.getContractAccess addr) with
  | none => rfl
  | some field =>
    cases hw : field.wildcard <;> simp [eventRulesResolution, ruleMode, hw]

theorem pass_allowlist_eq {addr : String}
    (h : (v.pass e opts txHash logs).eventRules addr =
      some (eventRulesResolution (rulesOf (v.access.getContractAccess addr)))) :
    (v.pass e opts txHash logs).allowlist addr =
      (v.rules addr).map fun rule => ⟨toLower rule.topic0, rule.paramRules⟩ := by
  unfold LogPass.allowlist ViewerFacts.rules
  rw [h]
  cases rulesOf (v.access.getContractAccess addr) with
  | none => rfl
  | some field =>
    cases hw : field.wildcard <;> simp [eventRulesResolution, eventRulesGetRules, hw]

section Verdict

variable (he : v.KnownToExplorer e opts participantAddrs txHash) (hviewer : v.viewerDID ≠ "")
  (hl : l.emitter ∈ emittersOf logs) (htx : l.txHash = txHash)
  (hlevel : (v.visibility l.emitter).level =
    if (v.access.getContractAccess l.emitter).isSome then .full else .redacted)

include he hviewer hl htx hlevel

/-- The facts of the explorer about a log whose emitter's rules are known, all but
those about the rules. -/
theorem factsWith_eq_of_rules (abiJSON : String) :
    (v.pass e opts txHash logs).factsWith l abiJSON =
      { v.logFacts l abiJSON with
        rules := (v.pass e opts txHash logs).ruleMode l.emitter
        eventAllowed := ((v.pass e opts txHash logs).factsWith l abiJSON).eventAllowed
        topic0Allowlisted :=
          ((v.pass e opts txHash logs).factsWith l abiJSON).topic0Allowlisted } := by
  have hgrant : ((v.pass e opts txHash logs).level l == some .full) =
      (v.access.getContractAccess l.emitter).isSome := by
    rw [pass_level_eq hl, hlevel]
    cases (v.access.getContractAccess l.emitter).isSome <;> rfl
  have hadmin : (v.pass e opts txHash logs).isAdminContract l.emitter = v.isAdmin l.emitter :=
    privileged_eq hviewer hl he.admin
  have hunlock : (v.pass e opts txHash logs).isUnlockable l.emitter = v.isUnlockable l.emitter :=
    privileged_eq hviewer hl he.unlockable
  have hlisted : (v.pass e opts txHash logs).isListed l = v.isListed (toLower l.txHash) :=
    congrFun he.listed _
  have hparticipant : (v.pass e opts txHash logs).isParticipant = v.isParty (toLower l.txHash) := by
    rw [htx]
    rfl
  have hengine : (v.pass e opts txHash logs).engine = e := rfl
  have haddrs : (v.pass e opts txHash logs).viewerAddrs = v.linked.map toLower := rfl
  have hresolved : ∀ addr, (v.pass e opts txHash logs).resolvedABI addr = v.contractABI addr :=
    purePass_resolvedABI he.abi
  have hcheck : ∀ addr, (v.pass e opts txHash logs).abiForCheck addr = v.contractABI addr :=
    purePass_abiForCheck he.abi
  unfold LogPass.factsWith ViewerFacts.logFacts
  cases l.topic0 <;>
    simp only [hgrant, hadmin, hunlock, hlisted, hparticipant, hengine, haddrs, he.abi, he.pkg,
      RedactionEngine.strict, he.profile, hresolved, hcheck, allowsDynamicPayload_eq he hl,
      explorer_eventHasDynamic_eq, Option.isNone_some, Bool.false_or]

theorem decide_factsWith_eq (abiJSON : String) :
    decideLogEmitter v.profile ((v.pass e opts txHash logs).factsWith l abiJSON) =
      decideLogEmitter v.profile (v.logFacts l abiJSON) := by
  obtain ⟨check, hcheck, hrules⟩ := he.rules
  have hresolved := @pass_eventRules_eq v e opts txHash logs l hviewer hl check hcheck
  rw [factsWith_eq_of_rules he hviewer hl htx hlevel]
  rcases hrules l.emitter with hentry | ⟨hadmin, -⟩
  · -- The rules are those of the entry, so the remaining facts agree as well.
    rw [hentry] at hresolved
    congr 1
    have hallowed : ((v.pass e opts txHash logs).factsWith l abiJSON).eventAllowed =
        v.eventAllowed l abiJSON := by
      unfold LogPass.factsWith ViewerFacts.eventAllowed
      dsimp only
      cases l.topic0 with
      | none => rfl
      | some topic0 =>
        simp only [pass_allowlist_eq hresolved, any_map, LogPass.ruleAdmits,
          LogPass.ruleMatches, Function.comp_def]
        rw [show (v.pass e opts txHash logs).engine.pkg = v.pkg from he.pkg]
        rfl
    have hlisted : ((v.pass e opts txHash logs).factsWith l abiJSON).topic0Allowlisted =
        v.topic0Allowlisted l := by
      unfold LogPass.factsWith ViewerFacts.topic0Allowlisted
      dsimp only
      cases l.topic0 with
      | none => rfl
      | some topic0 =>
        simp only [pass_allowlist_eq hresolved, any_map, LogPass.ruleMatches,
          Function.comp_def]
    rw [hallowed, hlisted, pass_ruleMode_eq hresolved]
    rfl
  · exact decideLogEmitter_of_admin hadmin _ _ _

/-- The explorer's verdict: that of the viewer's facts, with parameter rules checked
by the ABI the third phase fetched. -/
theorem pass_verdict_eq :
    (v.pass e opts txHash logs).verdict l =
      decideLogEmitter v.profile
        (v.logFacts l ((v.pass e opts txHash logs).fetchedABI l.emitter)) := by
  have hdecide := decide_factsWith_eq he hviewer hl htx hlevel
    ((v.pass e opts txHash logs).fetchedABI l.emitter)
  have hvisible : (v.pass e opts txHash logs).level l ≠ some .hidden := by
    rw [pass_level_eq hl, hlevel]
    cases (v.access.getContractAccess l.emitter).isSome <;> simp
  have hprofile : (v.pass e opts txHash logs).engine.readProfile = v.profile := he.profile
  unfold LogPass.verdict
  rw [if_neg hvisible, hprofile]
  split
  · rename_i hnoPath
    simp only [Bool.and_eq_true, Bool.not_eq_true'] at hnoPath
    obtain ⟨⟨hadmin, hunlocked⟩, hgrant⟩ := hnoPath
    rw [← hdecide]
    exact (decideLogEmitter_of_no_path hadmin hunlocked hgrant).symm
  · exact hdecide

/-- The verdicts on one log differ in the ABI of the parameter rules alone. -/
theorem verdict_eq_iff :
    (v.pass e opts txHash logs).verdict l =
        decideLogEmitter v.profile (v.logFacts l (v.contractABI l.emitter)) ↔
      (Dataless logs l.emitter →
        (v.logFacts l (v.contractABI l.emitter)).decidedByParamRules v.profile = true →
          v.eventAllowed l "" = v.eventAllowed l (v.contractABI l.emitter)) := by
  rw [pass_verdict_eq he hviewer hl htx hlevel]
  have hturn := decideLogEmitter_eventAllowed_iff v.profile
    (v.logFacts l (v.contractABI l.emitter))
    (v.eventAllowed l ((v.pass e opts txHash logs).fetchedABI l.emitter))
    (v.eventAllowed l (v.contractABI l.emitter))
  refine Iff.trans hturn ?_
  by_cases hdecided :
      (v.logFacts l (v.contractABI l.emitter)).decidedByParamRules v.profile = true
  · have hgrant : (v.access.getContractAccess l.emitter).isSome = true :=
      LogEmitterFacts.hasGrant_of_decided hdecided
    have hfull : (v.visibility l.emitter).level = .full := by rw [hlevel, if_pos hgrant]
    have hread : isNonIdentifiable (some (v.visibility l.emitter).level) = false := by
      rw [hfull]
      rfl
    have hcases := @purePass_fetchedABI_cases v.visibility e logs opts (v.isParty (toLower txHash))
      v.viewerDID (v.linked.map toLower) _ he.abi l hl hread
    unfold ViewerFacts.pass
    rcases hcases with ⟨hcarries, hfetched⟩ | ⟨hdataless, hfetched⟩
    · simp [hfetched, hcarries]
    · simp [hfetched, hdataless]
  · simp [hdecided]

end Verdict

end Explorer

/-! ## Lists -/

/-- Two ways to keep elements under keys of their own give one list exactly when they
agree on every element. -/
theorem filterMap_eq_iff_of_keys {α β κ : Type} {xs : List α} {key : α → κ} {key' : β → κ}
    (hkeys : Set.InjOn key {x | x ∈ xs}) {f g : α → Option β}
    (hf : ∀ x y, f x = some y → key' y = key x) (hg : ∀ x y, g x = some y → key' y = key x) :
    xs.filterMap f = xs.filterMap g ↔ ∀ x ∈ xs, f x = g x := by
  constructor
  · intro h x hx
    have hkept : ∀ {f : α → Option β}, (∀ x y, f x = some y → key' y = key x) →
        ∀ y, f x = some y ↔ y ∈ xs.filterMap f ∧ key' y = key x := by
      intro f hf y
      constructor
      · intro hy
        exact ⟨mem_filterMap.mpr ⟨x, hx, hy⟩, hf x y hy⟩
      · rintro ⟨hy, hkey⟩
        obtain ⟨x', hx', hy'⟩ := mem_filterMap.mp hy
        rwa [← hkeys hx' hx ((hf x' y hy').symm.trans hkey)]
    exact Option.ext fun y => by rw [hkept hf, hkept hg, h]
  · intro h
    exact filterMap_congr h

/-! ## The two layers -/

section Layers

variable {v : ViewerFacts} {f : LogFilter} {e : RedactionEngine} {opts : RedactOpts}
  {participantAddrs : List String} {txHash : String} {logs : List Log} {toRaw : Log → Json}

theorem filterEventLogsDetailed_eq (hviewer : v.viewerDID ≠ "") (hf : v.KnownToFilter f)
    (hraw : ∀ l ∈ logs, ∃ entry, Represents (toRaw l) l entry) :
    filterEventLogsDetailed f (logs.map toRaw) = logs.filterMap fun l =>
      (decideLogEmitter v.profile (v.logFacts l (v.contractABI l.emitter))).map
        (AdmittedLog.mk (toRaw l)) := by
  unfold filterEventLogsDetailed
  rw [hf.perms]
  dsimp only
  rw [filterMap_map]
  refine filterMap_congr fun l hl => ?_
  obtain ⟨entry, hr⟩ := hraw l hl
  rw [Function.comp_apply, filter_verdict_eq hf hviewer hr]

theorem admitted_map_eq {δ : Type} (pass : LogPass) (form : Log → LogPayloadPolicy → δ) :
    (pass.admitted logs).map (fun admission => form admission.1 admission.2) =
      logs.filterMap fun l => (pass.verdict l).map (form l) := by
  rw [LogPass.admitted, map_filterMap]
  refine filterMap_congr fun l _ => ?_
  rw [Option.map_map]
  rfl

theorem redactLogsWithOpts_of_logPass {viewerDID : String} {pass : LogPass}
    (h : logPass e logs viewerDID opts participantAddrs = .ok pass) :
    redactLogsWithOpts e logs viewerDID opts participantAddrs =
      .ok ((pass.admitted logs).map fun admission => pass.render admission.1 admission.2) := by
  unfold redactLogsWithOpts
  rw [h]
  split
  · rename_i hnil
    simp [hnil, LogPass.admitted]
  · rfl

end Layers

/-- The explorer admits the logs the filter admits, in the same order and under the
same policies, exactly when the parameter rules come out the same with and without the
ABI wherever the explorer does without it and the verdict turns on them. -/
theorem explorer_admits_as_filter_iff (v : ViewerFacts) (f : LogFilter) (e : RedactionEngine)
    (opts : RedactOpts) (participantAddrs : List String) (txHash : String) (logs : List Log)
    (toRaw : Log → Json) (hviewer : v.viewerDID ≠ "") (hf : v.KnownToFilter f)
    (he : v.KnownToExplorer e opts participantAddrs txHash)
    (hlevel : ∀ l ∈ logs, (v.visibility l.emitter).level =
      if (v.access.getContractAccess l.emitter).isSome then .full else .redacted)
    (htx : ∀ l ∈ logs, l.txHash = txHash)
    (hraw : ∀ l ∈ logs, ∃ entry, Represents (toRaw l) l entry)
    (hinj : Set.InjOn toRaw {l | l ∈ logs}) :
    (∃ pass, logPass e logs v.viewerDID opts participantAddrs = .ok pass ∧
      redactLogsWithOpts e logs v.viewerDID opts participantAddrs =
        .ok ((pass.admitted logs).map fun admission => pass.render admission.1 admission.2) ∧
      (pass.admitted logs).map (fun admission => AdmittedLog.mk (toRaw admission.1) admission.2) =
        filterEventLogsDetailed f (logs.map toRaw)) ↔
    ∀ l ∈ logs, Dataless logs l.emitter →
      (v.logFacts l (v.contractABI l.emitter)).decidedByParamRules v.profile = true →
        v.eventAllowed l "" = v.eventAllowed l (v.contractABI l.emitter) := by
  have hpass := logPass_eq he hviewer logs
  have hlog : ∀ l ∈ logs, (v.pass e opts txHash logs).verdict l =
        decideLogEmitter v.profile (v.logFacts l (v.contractABI l.emitter)) ↔
      (Dataless logs l.emitter →
        (v.logFacts l (v.contractABI l.emitter)).decidedByParamRules v.profile = true →
          v.eventAllowed l "" = v.eventAllowed l (v.contractABI l.emitter)) := by
    intro l hl
    obtain ⟨entry, hr⟩ := hraw l hl
    exact verdict_eq_iff he hviewer (emitter_mem_emittersOf hl hr.emits) (htx l hl) (hlevel l hl)
  -- Both outputs keep logs by a verdict of their own.
  have hraws : ∀ (f : Log → Option LogPayloadPolicy) l a,
      (f l).map (AdmittedLog.mk (toRaw l)) = some a → a.raw = toRaw l := by
    intro f l a ha
    obtain ⟨policy, -, rfl⟩ := Option.map_eq_some_iff.mp ha
    rfl
  have hsame := filterMap_eq_iff_of_keys hinj (hraws ((v.pass e opts txHash logs).verdict ·))
    (hraws fun l => decideLogEmitter v.profile (v.logFacts l (v.contractABI l.emitter)))
  simp only [(Option.map_injective fun _ _ h => (AdmittedLog.mk.inj h).2).eq_iff] at hsame
  rw [← filterEventLogsDetailed_eq hviewer hf hraw,
    ← admitted_map_eq _ fun l => AdmittedLog.mk (toRaw l)] at hsame
  constructor
  · rintro ⟨pass, hpass', -, hlists⟩ l hl
    obtain rfl := Except.ok.inj (hpass.symm.trans hpass')
    exact (hlog l hl).mp (hsame.mp hlists l hl)
  · intro hcondition
    exact ⟨_, hpass, redactLogsWithOpts_of_logPass hpass,
      hsame.mpr fun l hl => (hlog l hl).mpr (hcondition l hl)⟩

/-! ### An approval, with and without its data -/

/-- `Approved(address owner, address indexed spender)`. -/
def approvedId : String := "0xaad2833c9fd7a3de33f301e5186ee84d1a5753ce32de6b97baedaac4b92b55fc"

def approvedEvent : Event where
  id := approvedId
  inputs := [⟨false, .leaf .address⟩, ⟨true, .leaf .address⟩]

def approvedABI : String :=
  "[\x7b\"type\":\"event\",\"name\":\"Approved\",\"inputs\":
    [\x7b\"type\":\"address\"\x7d,\x7b\"type\":\"address\",\"indexed\":true\x7d]\x7d]"

def tokenAddress : String := "0xcccccccccccccccccccccccccccccccccccccccc"

def eveAddress : String := "0xeeeeeeeeeeeeeeeeeeeeeeeeeeeeeeeeeeeeeeee"

def eveTopic : String := "0x000000000000000000000000eeeeeeeeeeeeeeeeeeeeeeeeeeeeeeeeeeeeeeee"

def bobTopic : String := "0x000000000000000000000000b0b0b0b0b0b0b0b0b0b0b0b0b0b0b0b0b0b0b0b0"

/-- Eve may read the approvals that name them as the owner. -/
def eveFacts : ViewerFacts where
  viewerDID := "did:eve"
  profile := .standard
  pkg := .ofABI approvedABI [approvedEvent]
  linked := [eveAddress]
  isAdmin := fun _ => false
  isUnlockable := fun _ => false
  isListed := fun _ => false
  isParty := fun _ => false
  access := {
    contractAccess := [(tokenAddress, {
      eventRules := some { rules := [{ topic0 := approvedId, paramRules := [⟨0, "self"⟩] }] } })] }
  visibility := fun _ => ⟨.full, .rbacGroupMember⟩
  contractABI := fun a => if a = tokenAddress then approvedABI else ""
  allowsDynamicPayload := fun _ => false

def eveFilter : LogFilter where
  pkg := eveFacts.pkg
  profile := eveFacts.profile
  perms := some eveFacts.access
  userAddresses := eveFacts.linked
  abiProvider := some ⟨eveFacts.contractABI, some eveFacts.allowsDynamicPayload⟩
  visCtx := some { viewerDID := "did:eve" }
  isAdminByContract := eveFacts.isAdmin

def eveEngine : RedactionEngine where
  readProfile := eveFacts.profile
  db := {
    getBatchVisibilityDetailed := fun _ addrs => .ok fun key =>
      if key ∈ addrs then some (eveFacts.visibility key) else none
    getLinkedAddresses := fun _ => .ok eveFacts.linked
    getBatchEventAccess := fun _ _ => .ok fun _ => false }
  abiResolver := some eveFacts.contractABI
  eventRuleChecker := some fun _ a =>
    eventRulesResolution (LogFilter.rulesOf (eveFacts.access.getContractAccess a))
  adminContractsResolver := some fun _ _ => eveFacts.isAdmin
  visibleToUnlockResolver := some fun _ _ => eveFacts.isUnlockable
  dynamicPayloadAllowedResolver := some fun _ => eveFacts.allowsDynamicPayload
  pkg := eveFacts.pkg

/-- An approval of Eve as the spender, with the data of its owner. -/
def approval (data : String) : Log where
  txHash := "0xt1"
  address := tokenAddress
  topic0 := some approvedId
  topic1 := some eveTopic
  data := data

def nodeLog (l : Log) : Json :=
  .obj [("address", .str l.address), ("topics", .arr ((collectLogTopics l).map .str)),
    ("data", .str (if l.data = "" then "0x" else l.data)), ("transactionHash", .str l.txHash)]

theorem eve_knownToFilter : eveFacts.KnownToFilter eveFilter where
  profile := rfl
  pkg := rfl
  perms := rfl
  linked := rfl
  abi := rfl
  admin := rfl
  visCtx := ⟨_, rfl, rfl, rfl, rfl, fun _ => rfl⟩

theorem eve_knownToExplorer : eveFacts.KnownToExplorer eveEngine {} [] "0xt1" where
  profile := rfl
  pkg := rfl
  linked := rfl
  visibility := fun _ => rfl
  abi := rfl
  admin := ⟨_, rfl, fun _ _ _ => rfl⟩
  unlockable := ⟨_, rfl, fun _ _ _ => rfl⟩
  dynamicPayload := ⟨_, rfl, fun _ _ _ => rfl⟩
  rules := ⟨_, rfl, fun _ => Or.inl rfl⟩
  listed := rfl
  party := rfl

theorem eve_level :
    (eveFacts.visibility (approval "").emitter).level =
      if (eveFacts.access.getContractAccess (approval "").emitter).isSome then .full
      else .redacted := by
  decide +kernel

theorem equalFold_logKeys :
    (["address", "topics", "data", "transactionHash"].all fun a =>
      ["address", "topics", "data", "transactionHash"].all fun b => equalFold a b == (a == b)) =
        true := by
  decide +kernel

theorem intoStrings_map_str (topics : List String) :
    intoStrings [] (.arr (topics.map .str)) = some topics := by
  rw [intoStrings, mapM_map]
  exact mapM_pure.trans (congrArg some (map_id _))

theorem unmarshalLogEntry_nodeLog (l : Log) :
    unmarshalLogEntry (nodeLog l) =
        some ⟨l.address, collectLogTopics l, if l.data = "" then "0x" else l.data⟩ ∧
      (l.txHash ≠ "" → logTransactionHash (nodeLog l) = some l.txHash) := by
  have hkeys := equalFold_logKeys
  simp only [all_cons, all_nil, Bool.and_eq_true, beq_iff_eq] at hkeys
  constructor
  · simp [unmarshalLogEntry, nodeLog, structField, hkeys, intoStrings_map_str, intoString]
  · intro htx
    simp [logTransactionHash, nodeLog, structField, hkeys, intoString, htx]

theorem approval_represented (data : String) :
    Represents (nodeLog (approval data)) (approval data)
      ⟨tokenAddress, [approvedId, eveTopic], if data = "" then "0x" else data⟩ where
  decoded := (unmarshalLogEntry_nodeLog (approval data)).1
  txHash := (unmarshalLogEntry_nodeLog (approval data)).2 (by simp [approval])
  address := rfl
  emits := by simp [approval, tokenAddress]
  topics := rfl
  count := by simp
  words := by
    have hall : ([approvedId, eveTopic].all fun topic => (topicWord topic).isSome) = true := by
      decide +kernel
    intro topic htopic
    exact Option.isSome_iff_exists.mp (all_eq_true.mp hall topic htopic)
  data := by
    by_cases hempty : data = ""
    · exact Or.inr ⟨if_pos hempty, hempty⟩
    · exact Or.inl (if_neg hempty)

/-- An approval by Eve and one by Bob, each with its data. -/
def approvals : List Log := [approval eveTopic, approval bobTopic]

/-- Approvals that carry their data are judged the same: both layers admit the one by Eve. -/
theorem approval_with_data_same :
    filterEventLogsDetailed eveFilter (approvals.map nodeLog) =
        [⟨nodeLog (approval eveTopic), .masked⟩] ∧
      ∃ pass, logPass eveEngine approvals "did:eve" {} [] = .ok pass ∧
        redactLogsWithOpts eveEngine approvals "did:eve" {} [] =
          .ok ((pass.admitted approvals).map fun admission =>
            pass.render admission.1 admission.2) ∧
        (pass.admitted approvals).map
            (fun admission => AdmittedLog.mk (nodeLog admission.1) admission.2) =
          filterEventLogsDetailed eveFilter (approvals.map nodeLog) := by
  have hdata : ∀ l ∈ approvals, ∃ data, data ≠ "" ∧ l = approval data := by
    intro l hl
    rcases mem_cons.mp hl with rfl | hl
    · exact ⟨eveTopic, by decide, rfl⟩
    · exact ⟨bobTopic, by decide, mem_singleton.mp hl⟩
  constructor
  · have hverdicts : eveFilter.verdict eveFacts.access (nodeLog (approval eveTopic)) =
          some .masked ∧
        eveFilter.verdict eveFacts.access (nodeLog (approval bobTopic)) = none := by
      decide +kernel
    simp [filterEventLogsDetailed, show eveFilter.perms = some eveFacts.access from rfl, approvals,
      hverdicts]
  refine (explorer_admits_as_filter_iff eveFacts eveFilter eveEngine {} [] "0xt1"
    approvals nodeLog (by decide) eve_knownToFilter eve_knownToExplorer ?_ ?_ ?_ ?_).mpr ?_
  · intro l hl
    obtain ⟨data, -, rfl⟩ := hdata l hl
    exact eve_level
  · intro l hl
    obtain ⟨data, -, rfl⟩ := hdata l hl
    rfl
  · intro l hl
    obtain ⟨data, -, rfl⟩ := hdata l hl
    exact ⟨_, approval_represented _⟩
  · intro l hl l' hl' hraw
    obtain ⟨data, hne, rfl⟩ := hdata l hl
    obtain ⟨data', hne', rfl⟩ := hdata l' hl'
    simp [nodeLog, approval, hne, hne'] at hraw
    rw [hraw.2]
  · intro l hl hdataless
    obtain ⟨data, hne, rfl⟩ := hdata l hl
    rcases hdataless _ hl rfl with hempty | htopic
    · exact absurd hempty hne
    · cases htopic

/-- An approval without data, which the contract can emit with any topics, is shown by
the explorer and not by the filter: without the ABI the explorer takes the spender in
the second topic for the owner the rule asks for. -/
theorem dataless_approval_admitted_by_explorer_only :
    eveFacts.KnownToFilter eveFilter ∧ eveFacts.KnownToExplorer eveEngine {} [] "0xt1" ∧
      (eveFacts.visibility (approval "").emitter).level =
        (if (eveFacts.access.getContractAccess (approval "").emitter).isSome then .full
          else .redacted) ∧
      Represents (nodeLog (approval "")) (approval "")
        ⟨tokenAddress, [approvedId, eveTopic], "0x"⟩ ∧
      filterEventLogsDetailed eveFilter [nodeLog (approval "")] = [] ∧
      logPass eveEngine [approval ""] "did:eve" {} [] =
        .ok (eveFacts.pass eveEngine {} "0xt1" [approval ""]) ∧
      (eveFacts.pass eveEngine {} "0xt1" [approval ""]).admitted [approval ""] =
        [(approval "", .masked)] := by
  refine ⟨eve_knownToFilter, eve_knownToExplorer, eve_level, approval_represented "", ?_,
    logPass_eq eve_knownToExplorer (by decide) _, ?_⟩
  · have hverdict : eveFilter.verdict eveFacts.access (nodeLog (approval "")) = none := by
      decide +kernel
    simp [filterEventLogsDetailed, show eveFilter.perms = some eveFacts.access from rfl, hverdict]
  · have hverdict : (eveFacts.pass eveEngine {} "0xt1" [approval ""]).verdict (approval "") =
        some .masked := by
      decide +kernel
    simp [LogPass.admitted, hverdict]

end PrivacySuite.Explorer
