import PrivacySuite.Explorer.LogSymmetry
import PrivacySuite.Explorer.SlotMasks

/-!
# A log among its neighbours

`RedactLogsWithOpts` resolves what it needs for a whole list and renders every log
from the shared maps. With resolvers that are pure functions of viewer and address,
a log still meets its neighbours in two places: an ABI that is fetched for the data of
a neighbour is also there for the parameter rules of a log without data, and an
address that a neighbour names is also known where a log has it in a `bytes32` slot,
which the scan masks and does not ask about.
-/

namespace PrivacySuite.Explorer

open Go Abi Rbac LogPass List

/-! ## Addresses of a log -/

theorem toLower_ofList_map (l : List Char) :
    toLower (String.ofList (l.map toLowerRune)) = String.ofList (l.map toLowerRune) := by
  simp [toLower, Function.comp_def, toLowerRune_toLowerRune]

variable {a viewerDID : String} {pkg : Package} {l : Log} {α β : Type} {e : RedactionEngine}
  {vis : String → AddressVisibility} {abiOf : String → String}

theorem toLower_topicAddress {topic : String} (h : extractTopicAddress topic = some a) :
    toLower a = a ∧ a ≠ "" := by
  unfold extractTopicAddress paddedAddress at h
  rw [Option.ite_none_right_eq_some, Option.some.injEq] at h
  obtain ⟨-, rfl⟩ := h
  have hdigits : (toLower topic).toList.drop 26 = (topic.toList.drop 26).map toLowerRune := by
    simp [toLower]
  refine ⟨?_, by simp⟩
  have hpre : "0x" = String.ofList ("0x".toList.map toLowerRune) := by decide
  rw [hdigits, hpre, ← String.ofList_append, ← map_append, toLower_ofList_map]

theorem toLower_slotAddress (slot : List UInt8) :
    toLower (slotAddress slot) = slotAddress slot ∧ slotAddress slot ≠ "" := by
  refine ⟨?_, by simp [slotAddress]⟩
  exact toLower_of_spelled (spelled_encodeHex (slot.drop 12))

theorem toLower_of_mem_slotAddresses {types : List AbiType} {bytes : List UInt8}
    (h : a ∈ slotAddresses types bytes) : toLower a = a ∧ a ≠ "" := by
  induction types generalizing bytes with
  | nil => cases h
  | cons t ts ih =>
    rw [slotAddresses] at h
    split at h
    · rcases mem_cons.mp h with rfl | hrest
      · exact toLower_slotAddress _
      · exact ih hrest
    · exact ih h

theorem toLower_of_mem_dataAddresses {data contractABI : String} {topic0 : Option String}
    (h : a ∈ extractDataAddresses pkg data contractABI topic0) : toLower a = a ∧ a ≠ "" := by
  unfold extractDataAddresses at h
  split at h
  · exact toLower_of_mem_slotAddresses h
  · cases h

theorem toLower_of_mem_topicAddresses (h : a ∈ l.topicAddresses) : toLower a = a ∧ a ≠ "" := by
  obtain ⟨topic, -, htopic⟩ := mem_filterMap.mp h
  obtain ⟨text, -, haddr⟩ := Option.bind_eq_some_iff.mp htopic
  exact toLower_topicAddress haddr

theorem dataSlots_absent {pkg : Package} {data : String} (h : data = "" ∨ data = "0x")
    (contractABI : String) (topic0 : Option String) :
    dataSlots pkg data contractABI topic0 = none := by
  rw [Option.eq_none_iff_forall_ne_some]
  rintro ⟨types, bytes⟩ hslots
  simp only [dataSlots, Option.bind_eq_bind, Option.bind_eq_some_iff,
    Option.ite_none_left_eq_some, Option.some.injEq, Prod.mk.injEq, not_or, not_lt] at hslots
  obtain ⟨topic, -, ev, -, bytes', hdata, ⟨hne, hparams, hlen⟩, rfl, rfl⟩ := hslots
  rcases h with rfl | rfl
  · exact hne rfl
  · have hnil : bytes' = [] := by
      have htrim : decodeHex (trimPrefix "0x" "0x") = some [] := by decide
      exact Option.some.inj (hdata.symm.trans htrim)
    rw [hnil, length_nil] at hlen
    exact hparams (length_eq_zero_iff.mp (by omega))

theorem dataSlots_of_dataless (h : l.data = "" ∨ l.topic0 = none) (abiJSON : String) :
    dataSlots pkg l.data abiJSON l.topic0 = none := by
  rcases h with hdata | htopic
  · exact dataSlots_absent (.inl hdata) _ _
  · rw [htopic]
    rfl

/-! ## One call -/

/-- A call of the redactor, beside the logs it is for. -/
structure LogCall where
  engine : RedactionEngine
  viewerDID : String
  opts : RedactOpts
  isParticipant : Bool
  viewerAddrs : List String
  vis : String → AddressVisibility
  abiOf : String → String

def LogCall.pass (c : LogCall) (logs : List Log) : LogPass :=
  purePass c.vis c.engine logs c.opts c.isParticipant c.viewerDID c.viewerAddrs

/-- A resolver that answers with a set of addresses, address by address. -/
def PureSet (resolve : List String → String → Bool) : Prop :=
  ∃ holds : String → Bool, ∀ addrs a, resolve addrs a = (decide (a ∈ addrs) && holds a)

/-- The resolvers of an engine are pure functions of the viewer and the address. -/
structure PureResolvers (e : RedactionEngine) (viewerDID : String)
    (vis : String → AddressVisibility) (abiOf : String → String) : Prop where
  visibility : PureVisibility e.db viewerDID vis
  abi : e.abiResolver = some abiOf
  admin : ∀ resolve, e.adminContractsResolver = some resolve → PureSet (resolve viewerDID)
  unlockable : ∀ resolve, e.visibleToUnlockResolver = some resolve → PureSet (resolve viewerDID)
  dynamicPayload : ∀ resolve, e.dynamicPayloadAllowedResolver = some resolve → PureSet resolve

/-- The viewer's levels on the addresses that the emitters, the topics and the data of a
list of logs name. -/
def LogCall.seen (c : LogCall) (logs : List Log) : VisibilityMap :=
  levelOf (knownMap c.vis (knownAfterData c.vis c.engine logs c.opts c.isParticipant))

def LogCall.Pure (c : LogCall) : Prop := PureResolvers c.engine c.viewerDID c.vis c.abiOf

namespace LogCall

variable {c : LogCall} {logs logs' : List Log} {l : Log}

variable {resolver : Option (String → List String → String → Bool)} {a : String}

theorem privileged_congr (h : ∀ resolve, resolver = some resolve → PureSet (resolve c.viewerDID))
    (hl : l.emitter ∈ emittersOf logs) (hl' : l.emitter ∈ emittersOf logs') :
    (c.pass logs).privileged resolver l.emitter = (c.pass logs').privileged resolver l.emitter := by
  cases resolver with
  | none => rfl
  | some resolve =>
    obtain ⟨holds, hholds⟩ := h resolve rfl
    simp only [privileged, LogCall.pass, purePass, hholds, hl, hl', emittersOf_isEmpty hl,
      emittersOf_isEmpty hl']

theorem not_privileged (h : ∀ resolve, resolver = some resolve → PureSet (resolve c.viewerDID))
    {addr : String} (hl : addr ∉ emittersOf logs) :
    (c.pass logs).privileged resolver addr = false := by
  cases resolver with
  | none => rfl
  | some resolve =>
    obtain ⟨holds, hholds⟩ := h resolve rfl
    simp only [privileged, LogCall.pass, purePass, hholds, hl, decide_false,
      Bool.false_and, Bool.and_false]

theorem allowsDynamicPayload_congr (h : c.Pure) (hl : l.emitter ∈ emittersOf logs)
    (hl' : l.emitter ∈ emittersOf logs') :
    (c.pass logs).allowsDynamicPayload l.emitter =
      (c.pass logs').allowsDynamicPayload l.emitter := by
  cases hresolver : c.engine.dynamicPayloadAllowedResolver with
  | none => simp only [allowsDynamicPayload, LogCall.pass, purePass, hresolver]
  | some resolve =>
    obtain ⟨holds, hholds⟩ := h.dynamicPayload resolve hresolver
    simp only [allowsDynamicPayload, LogCall.pass, purePass, hresolver, hholds, hl, hl',
      emittersOf_isEmpty hl, emittersOf_isEmpty hl']

theorem eventRules_congr (hl : l.emitter ∈ emittersOf logs) (hl' : l.emitter ∈ emittersOf logs') :
    (c.pass logs).eventRules l.emitter = (c.pass logs').eventRules l.emitter := by
  simp only [eventRules, LogCall.pass, purePass, hl, hl']

theorem level_congr (hl : l.emitter ∈ emittersOf logs) :
    (c.pass logs).level l = some (c.vis l.emitter).level :=
  purePass_level hl

/-- The facts about a log are the same in every list it is in, but for the ABI its
parameter rules are checked by. -/
theorem factsWith_congr (h : c.Pure) (hl : l.emitter ∈ emittersOf logs)
    (hl' : l.emitter ∈ emittersOf logs') (abiJSON : String) :
    (c.pass logs).factsWith l abiJSON = (c.pass logs').factsWith l abiJSON := by
  have hadmin : (c.pass logs).isAdminContract l.emitter =
      (c.pass logs').isAdminContract l.emitter :=
    privileged_congr h.admin hl hl'
  have hunlock : (c.pass logs).isUnlockable l.emitter = (c.pass logs').isUnlockable l.emitter :=
    privileged_congr h.unlockable hl hl'
  have hlevel : (c.pass logs).level l = (c.pass logs').level l := by
    rw [level_congr hl, level_congr hl']
  have hmode : (c.pass logs).ruleMode l.emitter = (c.pass logs').ruleMode l.emitter := by
    simp only [ruleMode, eventRules_congr hl hl']
  have hlist : (c.pass logs).allowlist l.emitter = (c.pass logs').allowlist l.emitter := by
    simp only [allowlist, eventRules_congr hl hl']
  have hresolved : ∀ ls, (c.pass ls).resolvedABI l.emitter = c.abiOf l.emitter := fun ls =>
    purePass_resolvedABI h.abi _
  have hcheck : ∀ ls, (c.pass ls).abiForCheck l.emitter = c.abiOf l.emitter := fun ls =>
    purePass_abiForCheck h.abi _
  unfold factsWith
  rw [hadmin, hunlock, hlevel, hmode, hlist, hresolved, hresolved, hcheck, hcheck,
    allowsDynamicPayload_congr h hl hl']
  rfl

/-! ## What is known -/

theorem ne_empty_of_known (h : a ∈ knownAfterData c.vis c.engine logs c.opts c.isParticipant) :
    a ≠ "" := by
  simp only [knownAfterData, knownAfterTopics, mem_append, mem_flatMap,
    mem_filter] at h
  rcases h with (hemitter | ⟨l, -, htopic⟩) | ⟨l, -, hdata⟩
  · rw [emittersOf, mem_dedup, mem_map] at hemitter
    obtain ⟨l, hl, rfl⟩ := hemitter
    have haddress : l.address ≠ "" := by simpa using (mem_filter.mp hl).2
    exact fun hempty => haddress (toLower_eq_empty hempty)
  · exact (toLower_of_mem_topicAddresses htopic).2
  · exact (toLower_of_mem_dataAddresses hdata).2

theorem unknown_of_no_address (ha : l.address = "") :
    l.emitter ∉ knownAfterData c.vis c.engine logs c.opts c.isParticipant ∧
      (c.pass logs).level l = none := by
  have hempty : l.emitter = "" := by
    rw [Log.emitter, ha]
    decide +kernel
  have hunknown : l.emitter ∉ knownAfterData c.vis c.engine logs c.opts c.isParticipant :=
    fun hmem => ne_empty_of_known hmem hempty
  refine ⟨hunknown, ?_⟩
  show levelOf (knownMap c.vis _) l.emitter = none
  rw [levelOf, knownMap, if_neg hunknown]
  rfl

theorem verdict_of_no_address (h : c.Pure) (ha : l.address = "") :
    (c.pass logs).verdict l = none := by
  obtain ⟨hunknown, hlevel⟩ := @unknown_of_no_address c logs l ha
  have hnot : l.emitter ∉ emittersOf logs := fun hmem =>
    hunknown (known_subset_knownAfterData (emitters_subset_knownAfterTopics hmem))
  have hadmin : ((c.pass logs).facts l).isAdmin = false := not_privileged h.admin hnot
  have hunlocked : ((c.pass logs).facts l).unlocked = false := by
    show ((c.pass logs).isUnlockable l.emitter && _) = false
    rw [show (c.pass logs).isUnlockable l.emitter = false from not_privileged h.unlockable hnot,
      Bool.false_and]
  have hgrant : ((c.pass logs).facts l).hasGrant = false := by
    show ((c.pass logs).level l == some .full) = false
    rw [hlevel]
    rfl
  unfold verdict
  simp [hlevel, hadmin, hunlocked, hgrant]

theorem known_of_named (h : c.Pure) (hl : l ∈ logs) (ha : l.address ≠ "")
    (hread : isNonIdentifiable (some (c.vis l.emitter).level) = false)
    (hnamed : a ∈ l.topicAddresses ++
      extractDataAddresses c.engine.pkg l.data (c.abiOf l.emitter) l.topic0) :
    a ∈ knownAfterData c.vis c.engine logs c.opts c.isParticipant := by
  have hemitter := emitter_mem_emittersOf hl ha
  rcases mem_append.mp hnamed with htopic | hdata
  · refine known_subset_knownAfterData (mem_append_right _ ?_)
    refine mem_flatMap.mpr ⟨l, mem_filter.mpr ⟨hl, ?_⟩, htopic⟩
    simp [scansTopics, levelOf_knownMap_of_mem hemitter, hread]
  · refine mem_append_right _ ?_
    refine mem_flatMap.mpr ⟨l, mem_filter.mpr ⟨hl, ?_⟩, ?_⟩
    · by_contra hscan
      have hdataless : l.data = "" ∨ l.topic0 = none := by
        by_contra hcarries
        refine hscan ?_
        have hknown :=
          @emitters_subset_knownAfterTopics c.vis logs c.opts c.isParticipant _ hemitter
        simp only [not_or] at hcarries
        simp [scansData, levelOf_knownMap_of_mem hknown, hread, hcarries,
          Option.isSome_iff_ne_none]
      rw [extractDataAddresses, dataSlots_of_dataless hdataless] at hdata
      cases hdata
    · rw [Log.dataAddresses, RedactionEngine.resolveContractABI, h.abi]
      exact hdata

theorem detailed_of_known (h : a ∈ knownAfterData c.vis c.engine logs c.opts c.isParticipant) :
    (c.pass logs).detailed a = some (c.vis a) :=
  knownMap_of_mem h

theorem setLogMeta_congr (hlower : toLower a = a)
    (h : (c.pass logs).detailed a = (c.pass logs').detailed a) (m : Metadata) :
    (c.pass logs).setLogMeta a m = (c.pass logs').setLogMeta a m := by
  unfold setLogMeta levelOf
  rw [hlower, h]

/-! ## Verdicts -/

end LogCall

/-- The verdict on a log, its parameter rules checked by a given ABI. -/
def LogPass.verdictWith (pass : LogPass) (l : Log) (abiJSON : String) : Option LogPayloadPolicy :=
  if pass.level l = some .hidden then none
  else if !(pass.factsWith l abiJSON).isAdmin && !(pass.factsWith l abiJSON).unlocked &&
      !(pass.factsWith l abiJSON).hasGrant then none
  else decideLogEmitter pass.engine.readProfile (pass.factsWith l abiJSON)

theorem LogPass.verdictWith_eq_iff (pass : LogPass) (l : Log) (abiJSON a b : String) :
    pass.verdictWith l a = pass.verdictWith l b ↔
      ((pass.factsWith l abiJSON).decidedByParamRules pass.engine.readProfile = true →
        (pass.factsWith l a).eventAllowed = (pass.factsWith l b).eventAllowed) := by
  have hturn := decideLogEmitter_eventAllowed_iff pass.engine.readProfile
    (pass.factsWith l abiJSON) (pass.factsWith l a).eventAllowed (pass.factsWith l b).eventAllowed
  -- Everything but the parameter rules is read off the log and its emitter.
  have hsame : ∀ abi, pass.verdictWith l abi =
      if pass.level l = some .hidden then none
      else if !(pass.factsWith l abiJSON).isAdmin && !(pass.factsWith l abiJSON).unlocked &&
          !(pass.factsWith l abiJSON).hasGrant then none
      else decideLogEmitter pass.engine.readProfile
        { pass.factsWith l abiJSON with eventAllowed := (pass.factsWith l abi).eventAllowed } :=
    fun _ => rfl
  rw [hsame a, hsame b]
  by_cases hdecided : (pass.factsWith l abiJSON).decidedByParamRules pass.engine.readProfile = true
  · -- Such a log has a grant, so neither test drops it.
    have hgrant := LogEmitterFacts.hasGrant_of_decided hdecided
    have hshown : pass.level l ≠ some .hidden := by
      have hfull : (pass.level l == some .full) = true := hgrant
      rw [beq_iff_eq] at hfull
      simp [hfull]
    rw [if_neg hshown, if_neg hshown, hgrant, Bool.not_true, Bool.and_false,
      if_neg Bool.false_ne_true, if_neg Bool.false_ne_true]
    exact hturn
  · refine iff_of_true ?_ fun hd => absurd hd hdecided
    split
    · rfl
    · split
      · rfl
      · exact hturn.mpr fun hd => absurd hd hdecided

namespace LogCall

variable {c : LogCall} {logs logs' : List Log} {l : Log}

theorem verdict_eq_verdictWith (h : c.Pure) (hl : l.emitter ∈ emittersOf logs)
    (hself : l.emitter ∈ emittersOf [l]) :
    (c.pass logs).verdict l = (c.pass [l]).verdictWith l ((c.pass logs).fetchedABI l.emitter) := by
  unfold verdict verdictWith facts
  rw [factsWith_congr h hl hself, level_congr hl, level_congr hself]
  rfl

theorem fetchedABI_cases (h : c.Pure) (hl : l.emitter ∈ emittersOf logs)
    (hread : isNonIdentifiable (some (c.vis l.emitter).level) = false) :
    (¬ Dataless logs l.emitter ∧ (c.pass logs).fetchedABI l.emitter = c.abiOf l.emitter) ∨
      (Dataless logs l.emitter ∧ (c.pass logs).fetchedABI l.emitter = "") :=
  purePass_fetchedABI_cases h.abi hl hread

/-- The verdict on a log is the same in a list and alone exactly when its parameter
rules come out the same without the ABI, where only a neighbour brings the ABI in and
the verdict turns on them. -/
theorem verdict_eq_iff (h : c.Pure) (hl : l ∈ logs) (ha : l.address ≠ "") :
    (c.pass logs).verdict l = (c.pass [l]).verdict l ↔
      (Dataless [l] l.emitter → ¬ Dataless logs l.emitter →
        ((c.pass [l]).factsWith l (c.abiOf l.emitter)).decidedByParamRules
            c.engine.readProfile = true →
          ((c.pass [l]).factsWith l "").eventAllowed =
            ((c.pass [l]).factsWith l (c.abiOf l.emitter)).eventAllowed) := by
  have hmem := emitter_mem_emittersOf hl ha
  have hself : l.emitter ∈ emittersOf [l] := emitter_mem_emittersOf mem_cons_self ha
  rw [verdict_eq_verdictWith h hmem hself, verdict_eq_verdictWith h hself hself,
    verdictWith_eq_iff _ _ (c.abiOf l.emitter)]
  show (_ → _) ↔ (_ → _ → LogEmitterFacts.decidedByParamRules (c.pass [l]).engine.readProfile _ =
    true → _)
  by_cases hdecided : ((c.pass [l]).factsWith l (c.abiOf l.emitter)).decidedByParamRules
      (c.pass [l]).engine.readProfile = true
  · -- The verdict turns on the parameter rules, so the emitter is shown in full.
    have hread : isNonIdentifiable (some (c.vis l.emitter).level) = false := by
      have hgrant : ((c.pass [l]).level l == some .full) = true :=
        LogEmitterFacts.hasGrant_of_decided hdecided
      rw [level_congr hself, beq_iff_eq] at hgrant
      rw [hgrant]
      rfl
    have hmono : Dataless logs l.emitter → Dataless [l] l.emitter := by
      intro hall l' hl' hsame
      obtain rfl := mem_singleton.mp hl'
      exact hall l' hl hsame
    -- Alone the ABI is there for the data of the log, in the list for that of any.
    have hlist := fetchedABI_cases h hmem hread
    rcases fetchedABI_cases h hself hread with ⟨hcarries, hfetched⟩ | ⟨hdataless, hfetched⟩
    · rcases hlist with ⟨-, hfetched'⟩ | ⟨hdataless', -⟩
      · simp [hfetched, hfetched', hcarries]
      · exact absurd (hmono hdataless') hcarries
    · rcases hlist with ⟨hcarries', hfetched'⟩ | ⟨hdataless', hfetched'⟩
      · simp [hfetched, hfetched', hdataless, hcarries', hdecided, eq_comm]
      · simp [hfetched, hfetched', hdataless']
  · simp [hdecided]

/-! ## Rendering -/

section Readable

variable (h : c.Pure) (hl : l ∈ logs) (ha : l.address ≠ "")
  (hread : isNonIdentifiable (some (c.vis l.emitter).level) = false)

include h hl ha hread

theorem fetchedABI_scans :
    dataSlots c.engine.pkg l.data ((c.pass logs).fetchedABI l.emitter) l.topic0 =
      dataSlots c.engine.pkg l.data (c.abiOf l.emitter) l.topic0 := by
  have hmem := emitter_mem_emittersOf hl ha
  rcases fetchedABI_cases h hmem hread with ⟨-, hfetched⟩ | ⟨hdataless, -⟩
  · rw [hfetched]
  · rw [dataSlots_of_dataless (hdataless l hl rfl), dataSlots_of_dataless (hdataless l hl rfl)]

theorem levelOf_named {a : String}
    (hnamed : a ∈ l.topicAddresses ++
      extractDataAddresses c.engine.pkg l.data (c.abiOf l.emitter) l.topic0) :
    (c.pass logs).detailed a = some (c.vis a) :=
  detailed_of_known (known_of_named h hl ha hread hnamed)

theorem redactedTopics_eq {visMap : VisibilityMap}
    (hvis : ∀ a ∈ l.topicAddresses, visMap a = some (c.vis a).level) :
    ((c.pass logs).redactedFields l).1 = l.topicFields.map (·.map (redactTopicField visMap)) := by
  refine map_congr_left fun topic htopic => ?_
  cases topic with
  | none => rfl
  | some text =>
    refine congrArg some (redactTopicField_congr fun addr haddr => ?_)
    have hnamed : addr ∈ l.topicAddresses :=
      mem_filterMap.mpr ⟨some text, htopic, haddr⟩
    rw [hvis addr hnamed, levelOf,
      levelOf_named h hl ha hread (mem_append_left _ hnamed), Option.map_some]

theorem redactedData_eq :
    ((c.pass logs).redactedFields l).2 =
      redactLogData c.engine.pkg l.data (c.abiOf l.emitter) l.topic0 (c.seen logs) := by
  show redactLogData c.engine.pkg l.data ((c.pass logs).fetchedABI l.emitter) l.topic0
    (c.seen logs) = _
  unfold redactLogData
  rw [fetchedABI_scans h hl ha hread]

theorem annotations_eq (hl' : l ∈ logs') (m : Metadata) :
    ((c.pass logs).annotated l).foldl (fun m a => (c.pass logs).setLogMeta a m) m =
      ((c.pass logs').annotated l).foldl (fun m a => (c.pass logs').setLogMeta a m) m := by
  have hannotated : ∀ {ls : List Log}, l ∈ ls → (c.pass ls).annotated l = l.topicAddresses ++
      extractDataAddresses c.engine.pkg l.data (c.abiOf l.emitter) l.topic0 := by
    intro ls hls
    show l.topicAddresses ++ extractDataAddresses c.engine.pkg l.data
      ((c.pass ls).fetchedABI l.emitter) l.topic0 = _
    unfold extractDataAddresses
    rw [fetchedABI_scans h hls ha hread]
  rw [hannotated hl, hannotated hl']
  refine foldl_ext _ _ _ fun m a hnamed => ?_
  refine setLogMeta_congr ?_ ?_ m
  · rcases mem_append.mp hnamed with htopic | hdata
    · exact (toLower_of_mem_topicAddresses htopic).1
    · exact (toLower_of_mem_dataAddresses hdata).1
  · rw [levelOf_named h hl ha hread hnamed, levelOf_named h hl' ha hread hnamed]

end Readable

theorem renderEmitter_eq (hl : l ∈ logs) (hl' : l ∈ logs') (ha : l.address ≠ "") :
    (c.pass logs).renderEmitter l = (c.pass logs').renderEmitter l := by
  have hmem := emitter_mem_emittersOf hl ha
  have hmem' := emitter_mem_emittersOf hl' ha
  have hdetailed : ∀ {ls : List Log}, l.emitter ∈ emittersOf ls →
      (c.pass ls).detailed l.emitter = some (c.vis l.emitter) := fun hls =>
    detailed_of_known (known_subset_knownAfterData (emitters_subset_knownAfterTopics hls))
  unfold renderEmitter
  have hlower : toLower l.emitter = l.emitter := toLower_toLower _
  rw [level_congr hmem, level_congr hmem',
    setLogMeta_congr hlower ((hdetailed hmem).trans (hdetailed hmem').symm)]
  rfl

theorem renderMasked_eq_iff (h : c.Pure) (hl : l ∈ logs) (ha : l.address ≠ "")
    (hhidden : (c.vis l.emitter).level ≠ .hidden) :
    (c.pass logs).renderMasked l = (c.pass [l]).renderMasked l ↔
      ((c.vis l.emitter).level ≠ .redacted →
        RedactsAlike c.engine.pkg l.data (c.abiOf l.emitter) l.topic0 (c.seen logs)
          (c.seen [l])) := by
  have hself : l ∈ [l] := mem_cons_self
  have hemitter := @renderEmitter_eq c logs [l] l hl hself ha
  unfold renderMasked
  rw [level_congr (emitter_mem_emittersOf hl ha), level_congr (emitter_mem_emittersOf hself ha),
    hemitter]
  by_cases hredacted : (c.vis l.emitter).level = .redacted
  · simp [hredacted]
  · have hread : isNonIdentifiable (some (c.vis l.emitter).level) = false := by
      simp [isNonIdentifiable, hhidden, hredacted]
    have hvis : ∀ a ∈ l.topicAddresses, c.seen [l] a = some (c.vis a).level := by
      intro a hnamed
      show levelOf (c.pass [l]).detailed a = _
      rw [levelOf, levelOf_named h hself ha hread (mem_append_left _ hnamed), Option.map_some]
    have hne : ¬ some (c.vis l.emitter).level = some .redacted := by simpa using hredacted
    rw [if_neg hne, if_neg hne, redactedTopics_eq h hl ha hread hvis,
      ← redactedTopics_eq h hself ha hread hvis, redactedData_eq h hl ha hread,
      redactedData_eq h hself ha hread, annotations_eq h hl ha hread hself,
      ← redactLogData_eq_iff]
    simp [hredacted]

/-! ## Outcomes -/

end LogCall

def LogPass.outcome (pass : LogPass) (l : Log) : Option Log := (pass.verdict l).map (pass.render l)

/-- A log of a list is judged and rendered as it is alone. -/
structure LogIndependent (c : LogCall) (logs : List Log) (l : Log) : Prop where
  judged : Dataless [l] l.emitter → ¬ Dataless logs l.emitter →
    ((c.pass [l]).factsWith l (c.abiOf l.emitter)).decidedByParamRules c.engine.readProfile =
        true →
      ((c.pass [l]).factsWith l "").eventAllowed =
        ((c.pass [l]).factsWith l (c.abiOf l.emitter)).eventAllowed
  rendered : (c.pass [l]).verdict l = some .masked → (c.vis l.emitter).level ≠ .redacted →
    RedactsAlike c.engine.pkg l.data (c.abiOf l.emitter) l.topic0 (c.seen logs) (c.seen [l])

namespace LogCall

variable {c : LogCall} {logs : List Log} {l : Log}

theorem isSome_verdict_ne (h : c.Pure) (hl : l ∈ logs) (ha : l.address ≠ "")
    (hne : (c.pass logs).verdict l ≠ (c.pass [l]).verdict l) :
    ((c.pass logs).verdict l).isSome ≠ ((c.pass [l]).verdict l).isSome := by
  have hmem := emitter_mem_emittersOf hl ha
  have hself : l.emitter ∈ emittersOf [l] := emitter_mem_emittersOf mem_cons_self ha
  rw [verdict_eq_verdictWith h hmem hself, verdict_eq_verdictWith h hself hself] at hne ⊢
  have hdecided : ((c.pass [l]).factsWith l "").decidedByParamRules
      (c.pass [l]).engine.readProfile = true := by
    by_contra hnot
    exact hne ((verdictWith_eq_iff _ _ "" _ _).mpr fun hd => absurd hd hnot)
  have hvalue : ∀ abi, (c.pass [l]).verdictWith l abi = none ∨
      (c.pass [l]).verdictWith l abi = some .masked := by
    intro abi
    have hd := decideLogEmitter_of_decidedByParamRules hdecided
      ((c.pass [l]).factsWith l abi).eventAllowed
    unfold verdictWith
    split
    · exact Or.inl rfl
    · split
      · exact Or.inl rfl
      · rw [show (c.pass [l]).factsWith l abi = { (c.pass [l]).factsWith l "" with
          eventAllowed := ((c.pass [l]).factsWith l abi).eventAllowed } from rfl, hd]
        split
        · exact Or.inr rfl
        · exact Or.inl rfl
  rcases hvalue ((c.pass logs).fetchedABI l.emitter) with hx | hx <;>
    rcases hvalue ((c.pass [l]).fetchedABI l.emitter) with hy | hy <;>
      simp_all

theorem hidden_not_admitted (ha : l.address ≠ "")
    (hverdict : (c.pass [l]).verdict l = some .masked) :
    (c.vis l.emitter).level ≠ .hidden := by
  intro hhidden
  have hlevel := @level_congr c [l] l (emitter_mem_emittersOf mem_cons_self ha)
  unfold verdict at hverdict
  rw [hlevel, hhidden, if_pos rfl] at hverdict
  cases hverdict

theorem outcome_eq_iff (h : c.Pure) (hl : l ∈ logs) :
    (c.pass logs).outcome l = (c.pass [l]).outcome l ↔ LogIndependent c logs l := by
  by_cases ha : l.address = ""
  · -- Without an emitter the log is dropped in both, and no condition applies.
    have hnone : ∀ ls, (c.pass ls).verdict l = none := fun ls => verdict_of_no_address h ha
    constructor
    · intro _
      refine ⟨fun _ _ hdecided => ?_, fun hmasked => ?_⟩
      · exfalso
        have hgrant : ((c.pass [l]).level l == some .full) = true :=
          LogEmitterFacts.hasGrant_of_decided hdecided
        rw [(unknown_of_no_address ha).2] at hgrant
        cases hgrant
      · rw [hnone] at hmasked
        cases hmasked
    · intro _
      simp only [outcome, hnone, Option.map_none]
  · have hjudged := @verdict_eq_iff c logs l h hl ha
    by_cases hv : (c.pass logs).verdict l = (c.pass [l]).verdict l
    · have hrender : (c.pass logs).outcome l = (c.pass [l]).outcome l ↔
          ((c.pass [l]).verdict l = some .masked →
            (c.pass logs).renderMasked l = (c.pass [l]).renderMasked l) := by
        unfold outcome
        rw [hv]
        cases (c.pass [l]).verdict l with
        | none => simp
        | some policy => cases policy <;> simp [render]
      rw [hrender]
      constructor
      · intro hmasked
        refine ⟨hjudged.mp hv, fun hverdict hlevel => ?_⟩
        have hhidden : (c.vis l.emitter).level ≠ .hidden := hidden_not_admitted ha hverdict
        exact (renderMasked_eq_iff h hl ha hhidden).mp (hmasked hverdict) hlevel
      · intro hind hverdict
        have hhidden : (c.vis l.emitter).level ≠ .hidden := hidden_not_admitted ha hverdict
        exact (renderMasked_eq_iff h hl ha hhidden).mpr (hind.rendered hverdict)
    · -- Admitted in one of the two only.
      have hleft : (c.pass logs).outcome l ≠ (c.pass [l]).outcome l := by
        intro heq
        have hsome := congrArg Option.isSome heq
        rw [outcome, outcome, Option.isSome_map, Option.isSome_map] at hsome
        exact isSome_verdict_ne h hl ha hv hsome
      exact iff_of_false hleft fun hind => hv (hjudged.mpr hind.judged)

end LogCall

/-! ## Lists -/

/-- The output on a list is the concatenation of the outputs on its logs. -/
def RedactedOneByOne (e : RedactionEngine) (viewerDID : String) (opts : RedactOpts)
    (participantAddrs : List String) (logs : List Log) : Prop :=
  redactLogsWithOpts e logs viewerDID opts participantAddrs =
    (logs.mapM fun l => redactLogsWithOpts e [l] viewerDID opts participantAddrs).map List.flatten

/-- Every log of a list is judged and rendered as it is alone, by the viewer's linked
addresses. -/
def LogsIndependent (e : RedactionEngine) (viewerDID : String) (opts : RedactOpts)
    (participantAddrs : List String) (vis : String → AddressVisibility) (abiOf : String → String)
    (logs : List Log) : Prop :=
  ∀ viewerAddrs, viewerAddresses e.db viewerDID = .ok viewerAddrs → ∀ l ∈ logs,
    LogIndependent ⟨e, viewerDID, opts, participantAddrs.any (isViewers viewerAddrs), viewerAddrs,
      vis, abiOf⟩ logs l

/-- What a log is identified by in the explorer's table. -/
def Log.key (l : Log) : String × Int := (l.txHash, l.logIndex)

theorem LogPass.key_outcome {pass : LogPass} {out : Log} (h : pass.outcome l = some out) :
    out.key = l.key := by
  obtain ⟨policy, -, rfl⟩ := Option.map_eq_some_iff.mp h
  cases policy with
  | full => rfl
  | masked =>
    show (pass.renderMasked l).key = l.key
    unfold renderMasked
    split <;> rfl

theorem redactLogsWithOpts_pure {viewerAddrs : List String}
    (hvis : PureVisibility e.db viewerDID vis)
    (hlinked : viewerAddresses e.db viewerDID = .ok viewerAddrs) (opts : RedactOpts)
    (participantAddrs : List String) (logs : List Log) :
    redactLogsWithOpts e logs viewerDID opts participantAddrs =
      .ok (logs.filterMap (outcome (LogCall.pass
        ⟨e, viewerDID, opts, participantAddrs.any (isViewers viewerAddrs), viewerAddrs, vis, abiOf⟩
        logs))) := by
  rw [redactLogsWithOpts_of_logPass (logPass_pure hvis hlinked logs opts participantAddrs),
    admitted_map_eq]
  rfl

/-- Independent logs are redacted one by one; and logs with keys of their own that are
redacted one by one are independent. -/
theorem redactedOneByOne_iff (h : PureResolvers e viewerDID vis abiOf) (opts : RedactOpts)
    (participantAddrs : List String) (logs : List Log) :
    (LogsIndependent e viewerDID opts participantAddrs vis abiOf logs →
        RedactedOneByOne e viewerDID opts participantAddrs logs) ∧
      ((logs.map Log.key).Nodup → RedactedOneByOne e viewerDID opts participantAddrs logs →
        LogsIndependent e viewerDID opts participantAddrs vis abiOf logs) := by
  cases hlinked : viewerAddresses e.db viewerDID with
  | error msg =>
    -- The first lookup fails, for the list as for its first log.
    have hfails : ∀ ls : List Log, ls ≠ [] →
        redactLogsWithOpts e ls viewerDID opts participantAddrs = .error msg := by
      intro ls hls
      rw [redactLogsWithOpts, if_neg hls, logPass, hlinked]
      rfl
    refine ⟨fun _ => ?_, fun _ _ viewerAddrs hok => ?_⟩
    · unfold RedactedOneByOne
      cases logs with
      | nil => rfl
      | cons l rest =>
        rw [hfails _ (cons_ne_nil l rest), mapM_cons, hfails _ (cons_ne_nil l [])]
        rfl
    · rw [hlinked] at hok
      cases hok
  | ok viewerAddrs =>
    obtain ⟨c, hc⟩ : ∃ c : LogCall, c = ⟨e, viewerDID, opts,
      participantAddrs.any (isViewers viewerAddrs), viewerAddrs, vis, abiOf⟩ := ⟨_, rfl⟩
    have hpure : c.Pure := by
      rw [hc]
      exact h
    have hall : ∀ ls, redactLogsWithOpts e ls viewerDID opts participantAddrs =
        pure (ls.filterMap (c.pass ls).outcome) := by
      intro ls
      rw [hc]
      exact redactLogsWithOpts_pure h.visibility hlinked opts participantAddrs ls
    have hone : RedactedOneByOne e viewerDID opts participantAddrs logs ↔
        logs.filterMap (c.pass logs).outcome =
          logs.filterMap fun l => (c.pass [l]).outcome l := by
      unfold RedactedOneByOne
      simp only [hall]
      rw [mapM_pure]
      show Except.ok _ = Except.ok _ ↔ _
      rw [Except.ok.injEq]
      have hflat : (logs.map fun l => [l].filterMap (c.pass [l]).outcome).flatten =
          logs.filterMap fun l => (c.pass [l]).outcome l := by
        simp [filterMap_eq_flatMap_toList, flatMap_def]
      rw [hflat]
    have hcond : LogsIndependent e viewerDID opts participantAddrs vis abiOf logs ↔
        ∀ l ∈ logs, (c.pass logs).outcome l = (c.pass [l]).outcome l := by
      unfold LogsIndependent
      constructor
      · intro hind l hl
        refine (LogCall.outcome_eq_iff hpure hl).mpr ?_
        rw [hc]
        exact hind viewerAddrs hlinked l hl
      · intro hout addrs haddrs l hl
        obtain rfl := Except.ok.inj (hlinked.symm.trans haddrs)
        have hind := (LogCall.outcome_eq_iff hpure hl).mp (hout l hl)
        rw [hc] at hind
        exact hind
    rw [hone, hcond]
    refine ⟨fun hout => filterMap_congr hout, fun hkeys hlists => ?_⟩
    exact (filterMap_eq_iff_of_keys (inj_on_of_nodup_map hkeys) (fun _ _ => key_outcome)
      (fun _ _ => key_outcome)).mp hlists

end PrivacySuite.Explorer
