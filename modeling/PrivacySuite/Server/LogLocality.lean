import PrivacySuite.Explorer.LogLocality
import PrivacySuite.Explorer.LogMasking
import PrivacySuite.Server.LogRenderer

/-!
# Logs one by one, in both layers

The RPC renderer looks up the addresses of all the masked logs of an answer at once,
as the explorer does for a page. Here a log is compared with itself in three pairs of
settings: in a list and alone for the explorer, in a list and alone for the renderer,
and in the explorer and the renderer. In all three what can differ is a `bytes32` slot
that holds an address the viewer may see: the scan masks such a slot by what is known
about the address, and only other parts of the log, its neighbours or, in the
explorer, the emitter make it known.
-/

namespace PrivacySuite.Server

open Go Abi Rbac Explorer List

/-! ## The renderer -/

/-- The renderer's resolvers are pure functions of the viewer and the address. -/
structure LogRenderer.Pure (r : LogRenderer) (vis : String → AddressVisibility)
    (abiOf : String → String) : Prop where
  resolver : ∃ resolve, r.addrVisResolver = some resolve ∧
    ∀ addrs, resolve r.viewerDID addrs = .ok (knownMap vis addrs)
  abi : ∀ address, r.abiProvider.getContractABI address = abiOf (toLower address)

/-- The output on a list is the concatenation of the outputs on its logs. -/
def LogRenderer.RendersOneByOne (r : LogRenderer) (admitted : List AdmittedLog) : Prop :=
  r.redactAdmittedLogs admitted =
    (admitted.mapM fun a => r.redactAdmittedLogs [a]).map List.flatten

def LogRenderer.seen (r : LogRenderer) (vis : String → AddressVisibility)
    (admitted : List AdmittedLog) : VisibilityMap :=
  levelOf (knownMap vis (admitted.flatMap r.addressesOf))

/-- The data of every masked log is redacted as it is alone, unless one of them is
`null`, which the renderer does not survive. -/
def LogRenderer.Independent (r : LogRenderer) (vis : String → AddressVisibility)
    (admitted : List AdmittedLog) : Prop :=
  (∀ a ∈ admitted, a.payload = .masked → a.raw ≠ .null) →
    ∀ a ∈ admitted, a.payload = .masked → ∀ pl, r.parse a.raw = some pl →
      RedactsAlike r.pkg pl.data pl.abi pl.topic0 (r.seen vis admitted) (r.seen vis [a])

namespace LogRenderer

variable {r : LogRenderer} {vis : String → AddressVisibility} {abiOf : String → String}
  {admitted : List AdmittedLog} {a : AdmittedLog}

theorem visMap_pure (h : r.Pure vis abiOf) (admitted : List AdmittedLog) :
    r.visMap admitted = r.seen vis admitted := by
  obtain ⟨resolve, hresolver, hresolve⟩ := h.resolver
  unfold visMap
  rw [hresolver]
  dsimp only
  split
  · rename_i hnone
    rw [seen, hnone]
    rfl
  · rw [hresolve]
    funext key
    simp only [seen, levelOf, knownMap, mem_dedup]

variable {pl : ParsedLog} {raw : Json} {visMap : VisibilityMap}

theorem seen_of_address (ha : a ∈ admitted) (hmasked : a.payload = .masked)
    (hparse : r.parse a.raw = some pl) {addr : String} (haddr : addr ∈ pl.addresses r.pkg) :
    r.seen vis admitted addr = some (vis addr).level := by
  refine levelOf_knownMap_of_mem (mem_flatMap.mpr ⟨a, ha, ?_⟩)
  rw [addressesOf, hmasked, hparse]
  exact haddr

theorem parse_eq_some (h : r.parse raw = some pl) :
    ∃ fields, intoMap raw = some fields ∧ pl = r.parseFields fields := by
  obtain ⟨fields, hfields, rfl⟩ := Option.map_eq_some_iff.mp h
  exact ⟨fields, hfields, rfl⟩

theorem intoMap_nil_iff : intoMap raw = some none ↔ raw = .null := by
  cases raw <;> simp [intoMap]

def rendered (r : LogRenderer) (visMap : VisibilityMap) (a : AdmittedLog) : Option Json :=
  (r.renderLog visMap a).getD none

theorem renderLog_eq_none_iff :
    r.renderLog visMap a = none ↔ a.payload = .masked ∧ a.raw = .null := by
  unfold renderLog
  cases hpayload : a.payload with
  | full => simp
  | masked =>
    cases hparse : r.parse a.raw with
    | none =>
      have hne : a.raw ≠ .null := by
        intro hnull
        rw [hnull] at hparse
        cases hparse
      simp [hne]
    | some pl =>
      obtain ⟨fields, hfields, rfl⟩ := parse_eq_some hparse
      simp only [Option.map_eq_none_iff, ParsedLog.rewrite, true_and]
      rw [← intoMap_nil_iff, hfields, Option.some.injEq]
      rfl

theorem renderLog_of_not_null (h : a.payload = .masked → a.raw ≠ .null) :
    r.renderLog visMap a = some (r.rendered visMap a) := by
  unfold rendered
  cases hout : r.renderLog visMap a with
  | none =>
    obtain ⟨hmasked, hnull⟩ := renderLog_eq_none_iff.mp hout
    exact absurd hnull (h hmasked)
  | some out => rfl

theorem isSome_rendered (visMap visMap' : VisibilityMap) :
    (r.rendered visMap a).isSome = (r.rendered visMap' a).isSome := by
  unfold rendered renderLog
  cases a.payload with
  | full => rfl
  | masked =>
    cases hparse : r.parse a.raw with
    | none => rfl
    | some pl => cases hfields : pl.fields <;> simp [ParsedLog.rewrite, hfields]

theorem rendered_eq_iff {visMap' : VisibilityMap} (hnull : a.payload = .masked → a.raw ≠ .null)
    (h : a.payload = .masked → ∀ pl, r.parse a.raw = some pl →
      ∀ addr ∈ pl.addresses r.pkg, visMap addr = visMap' addr) :
    r.rendered visMap a = r.rendered visMap' a ↔
      (a.payload = .masked → ∀ pl, r.parse a.raw = some pl →
        RedactsAlike r.pkg pl.data pl.abi pl.topic0 visMap visMap') := by
  unfold rendered renderLog
  cases hpayload : a.payload with
  | full => simp
  | masked =>
    cases hparse : r.parse a.raw with
    | none => simp
    | some pl =>
      obtain ⟨fields, hfields, hpl⟩ := parse_eq_some hparse
      have hsome : pl.fields.isSome = true := by
        rw [hpl, Option.isSome_iff_ne_none]
        intro hnone
        have hmap : intoMap a.raw = some none := hnone ▸ hfields
        exact hnull hpayload (intoMap_nil_iff.mp hmap)
      have hrewrite := @ParsedLog.rewrite_eq_iff pl r.pkg visMap visMap'
        (fun m hm => nodup_keys_intoMap
          (hfields.trans (congrArg some ((congrArg ParsedLog.fields hpl).symm.trans hm))))
        (h hpayload pl hparse)
      obtain ⟨m, hm⟩ := Option.isSome_iff_exists.mp hsome
      have hout : ∀ v, ∃ out, pl.rewrite r.pkg v = some out := fun v => by
        simp [ParsedLog.rewrite, hm]
      obtain ⟨out, ho⟩ := hout visMap
      obtain ⟨out', ho'⟩ := hout visMap'
      rw [ho, ho'] at hrewrite
      simp only [ho, ho', Option.map_some, Option.getD_some, hrewrite, hsome,
        true_imp_iff, Option.some.injEq, forall_eq']

end LogRenderer

/-! ## Lists of options -/

variable {α β : Type} {f : α → Option β} {xs : List α} {pkg : Package} {data contractABI : String}
  {topic0 : Option String} {visMap : VisibilityMap}

theorem mapM_option_some {g : α → β} (h : ∀ x ∈ xs, f x = some (g x)) :
    xs.mapM f = some (xs.map g) := by
  induction xs with
  | nil => rfl
  | cons x xs ih =>
    rw [mapM_cons, h x mem_cons_self,
      ih fun y hy => h y (mem_cons_of_mem x hy)]
    rfl

theorem filterMap_eq_iff_of_isSome {g : α → Option β} (h : ∀ x ∈ xs, (f x).isSome = (g x).isSome) :
    xs.filterMap f = xs.filterMap g ↔ ∀ x ∈ xs, f x = g x := by
  induction xs with
  | nil => simp
  | cons x xs ih =>
    have hrest := ih fun y hy => h y (mem_cons_of_mem x hy)
    have hx := h x mem_cons_self
    rw [forall_mem_cons, ← hrest, filterMap_cons, filterMap_cons]
    cases hf : f x <;> cases hg : g x <;> simp_all

namespace LogRenderer

variable {r : LogRenderer} {vis : String → AddressVisibility} {abiOf : String → String}

/-- Admitted logs are rendered one by one exactly when they are independent. -/
theorem rendersOneByOne_iff (h : r.Pure vis abiOf) (admitted : List AdmittedLog) :
    r.RendersOneByOne admitted ↔ r.Independent vis admitted := by
  have hwired : r.addrVisResolver.isNone = false := by
    obtain ⟨resolve, hresolver, -⟩ := h.resolver
    rw [hresolver]
    rfl
  have hall : ∀ as, r.redactAdmittedLogs as =
      (as.mapM (r.renderLog (r.seen vis as))).map List.reduceOption := by
    intro as
    rw [redactAdmittedLogs, hwired, if_neg Bool.false_ne_true, visMap_pure h]
  unfold RendersOneByOne Independent
  by_cases hnull : ∀ a ∈ admitted, a.payload = .masked → a.raw ≠ .null
  · have hlist : r.redactAdmittedLogs admitted =
        some (admitted.filterMap (r.rendered (r.seen vis admitted))) := by
      rw [hall, mapM_option_some fun a ha => renderLog_of_not_null (hnull a ha), Option.map_some,
        List.reduceOption, filterMap_map]
      rfl
    have hone : ∀ a ∈ admitted, r.redactAdmittedLogs [a] =
        some (r.rendered (r.seen vis [a]) a).toList := by
      intro a ha
      rw [hall, mapM_cons, renderLog_of_not_null (hnull a ha)]
      cases r.rendered (r.seen vis [a]) a <;> rfl
    have hflat : (admitted.map fun a => (r.rendered (r.seen vis [a]) a).toList).flatten =
        admitted.filterMap fun a => r.rendered (r.seen vis [a]) a := by
      rw [filterMap_eq_flatMap_toList, flatMap_def]
    rw [hlist, mapM_option_some hone, Option.map_some, hflat, Option.some.injEq,
      filterMap_eq_iff_of_isSome fun a _ => isSome_rendered _ _]
    rw [imp_iff_right hnull]
    refine forall₂_congr fun a ha => ?_
    refine rendered_eq_iff (hnull a ha) fun hmasked pl hparse addr haddr => ?_
    rw [seen_of_address ha hmasked hparse haddr,
      seen_of_address mem_cons_self hmasked hparse haddr]
  · -- A masked `null` takes the whole answer with it, in the list and alone.
    have hpanic : ∃ a ∈ admitted, a.payload = .masked ∧ a.raw = .null := by
      by_contra hno
      exact hnull fun a ha hmasked hraw => hno ⟨a, ha, hmasked, hraw⟩
    obtain ⟨a, ha, hmasked, hraw⟩ := hpanic
    have hone : r.redactAdmittedLogs [a] = none := by
      rw [hall, mapM_eq_none.mpr ⟨a, mem_cons_self, renderLog_eq_none_iff.mpr ⟨hmasked, hraw⟩⟩]
      rfl
    rw [hall, mapM_eq_none.mpr ⟨a, ha, renderLog_eq_none_iff.mpr ⟨hmasked, hraw⟩⟩,
      mapM_eq_none.mpr ⟨a, ha, hone⟩]
    simp [hnull]

end LogRenderer

/-! ## The two layers -/

/-- Data as the node spells it and as the explorer has it: absent data is `0x` for the
node, where the explorer may have the empty text. -/
def SameData (node explorer : String) : Prop :=
  node = explorer ∨ (node = "0x" ∧ explorer = "")

/-- The members of an object show the topics and the data of a log. -/
structure Shows (fields : List (String × Json)) (l : Log) : Prop where
  topics : l.topicFields =
    (List.range 4).map fun i => (lenientStrings (fields.lookup "topics"))[i]?
  count : (lenientStrings (fields.lookup "topics")).length ≤ 4
  data : SameData (lenientString (fields.lookup "data")) l.data

/-- A log of the explorer, as the node sends it. -/
def SentAs (raw : Json) (l : Log) : Prop :=
  ∃ m, intoMap raw = some (some m) ∧ lenientString (m.lookup "address") = l.address ∧ Shows m l

/-- The renderer puts out an object with the topics and the data of a log. -/
def LogRenderer.RendersAs (r : LogRenderer) (admitted : List AdmittedLog) (a : AdmittedLog)
    (l : Log) : Prop :=
  ∃ fields, r.renderLog (r.visMap admitted) a = some (some (.obj fields)) ∧ Shows fields l

/-- Redacted data is absent only where the data was. -/
theorem dataSlots_of_redacted_absent (h : redactLogData pkg data contractABI topic0 visMap = "") :
    dataSlots pkg data contractABI topic0 = none := by
  cases hslots : dataSlots pkg data contractABI topic0 with
  | none => rfl
  | some slots =>
    obtain ⟨types, bytes⟩ := slots
    rw [redactLogData_of_slots hslots] at h
    split at h
    · -- Data that is written out again has a slot.
      have hnil : maskSlots visMap types bytes = [] := by
        have hdigits : encodeHex (maskSlots visMap types bytes) = encodeHex [] :=
          (String.append_eq_empty_iff.mp h).2
        have hdecoded := congrArg decodeHex hdigits
        rw [decodeHex_encodeHex, decodeHex_encodeHex] at hdecoded
        exact Option.some.inj hdecoded
      have hlen := (dataSlots_some hslots).2
      cases types with
      | nil => simp_all [masksSomeSlot]
      | cons t ts =>
        rw [length_cons] at hlen
        have htake : bytes.take 32 ≠ [] := by
          rw [Ne, take_eq_nil_iff, not_or]
          exact ⟨by decide, ne_nil_of_length_pos (by omega)⟩
        rw [maskSlots, append_eq_nil_iff] at hnil
        have hslot := hnil.1
        split at hslot
        · cases hslot
        · exact absurd hslot htake
    · rw [dataSlots_absent (Or.inl h)] at hslots
      cases hslots

theorem sameData_redacted_iff {node : String} {visMap' : VisibilityMap}
    (hsame : SameData node data) :
    SameData (redactLogData pkg node contractABI topic0 visMap')
        (redactLogData pkg data contractABI topic0 visMap) ↔
      RedactsAlike pkg data contractABI topic0 visMap visMap' := by
  rcases hsame with rfl | ⟨rfl, rfl⟩
  · constructor
    · rintro (heq | ⟨-, habsent⟩)
      · exact redactLogData_eq_iff.mp heq.symm
      · intro types bytes hslots
        rw [dataSlots_of_redacted_absent habsent] at hslots
        cases hslots
    · intro halike
      exact Or.inl (redactLogData_eq_iff.mpr halike).symm
  · have hnode := @dataSlots_absent pkg "0x" (Or.inr rfl) contractABI topic0
    have hexplorer := @dataSlots_absent pkg "" (Or.inl rfl) contractABI topic0
    refine iff_of_true (Or.inr ⟨?_, ?_⟩) fun types bytes hslots => ?_
    · rw [redactLogData, hnode]
    · rw [redactLogData, hexplorer]
    · rw [hexplorer] at hslots
      cases hslots

theorem rendersAs_iff {c : LogCall} {r : LogRenderer} (h : c.Pure) (hr : r.Pure c.vis c.abiOf)
    (hpkg : r.pkg = c.engine.pkg) {logs : List Log} {l : Log} (hl : l ∈ logs)
    (hverdict : (c.pass logs).verdict l = some .masked)
    (hfull : (c.pass logs).level l = some .full) {admitted : List AdmittedLog} {a : AdmittedLog}
    (ha : a ∈ admitted) (hmasked : a.payload = .masked) (hsent : SentAs a.raw l) :
    r.RendersAs admitted a ((c.pass logs).renderMasked l) ↔
      RedactsAlike c.engine.pkg l.data (c.abiOf l.emitter) l.topic0 (c.seen logs)
        (r.seen c.vis admitted) := by
  obtain ⟨m, hraw, haddress, hshows⟩ := hsent
  have hemits : l.address ≠ "" := by
    intro hempty
    rw [LogCall.verdict_of_no_address h hempty] at hverdict
    cases hverdict
  have hlevel : (c.vis l.emitter).level = .full := by
    rw [LogCall.level_congr (emitter_mem_emittersOf hl hemits)] at hfull
    exact Option.some.inj hfull
  have hread : isNonIdentifiable (some (c.vis l.emitter).level) = false := by
    rw [hlevel]
    rfl
  obtain ⟨pl, hpl⟩ : ∃ pl, pl = r.parseFields (some m) := ⟨_, rfl⟩
  have hparse : r.parse a.raw = some pl := by
    rw [LogRenderer.parse, hraw, hpl]
    rfl
  have habi : pl.abi = c.abiOf l.emitter := by
    rw [hpl, ← show toLower l.address = l.emitter from rfl, ← haddress]
    exact hr.abi _
  have htopics : l.topicFields = (List.range 4).map fun i => pl.topics[i]? := by
    rw [hpl]
    exact hshows.topics
  have hcount : pl.topics.length ≤ 4 := by
    rw [hpl]
    exact hshows.count
  have hdata : SameData pl.data l.data := by
    rw [hpl]
    exact hshows.data
  have htopic0 : pl.topic0 = l.topic0 := by
    have hhead := congrArg List.head? htopics
    rw [ParsedLog.topic0, head?_eq_getElem?]
    exact (Option.some.inj hhead).symm
  -- The addresses in topics are known in both, so the topics agree.
  have hnamed : ∀ addr ∈ l.topicAddresses,
      r.seen c.vis admitted addr = some (c.vis addr).level := by
    intro addr hnamed
    refine LogRenderer.seen_of_address ha hmasked hparse ?_
    obtain ⟨topic, htopic, haddr⟩ := mem_filterMap.mp hnamed
    rw [htopics] at htopic
    obtain ⟨i, -, hi⟩ := mem_map.mp htopic
    obtain ⟨text, rfl, htext⟩ := Option.bind_eq_some_iff.mp haddr
    unfold ParsedLog.addresses extractLogAddresses
    rw [mem_eraseDups]
    refine mem_append_left _ (mem_filterMap.mpr ⟨some text, ?_, htext⟩)
    exact mem_map_of_mem (mem_of_getElem? hi)
  have htopicsOut : ((c.pass logs).renderMasked l).topicFields =
      (List.range 4).map fun i =>
        (pl.topics.map (redactTopicField (r.seen c.vis admitted)))[i]? := by
    have hne : ¬ (c.pass logs).level l = some .redacted := by
      rw [hfull]
      decide
    rw [LogPass.renderMasked, if_neg hne, Log.topicFields,
      LogCall.redactedTopics_eq h hl hemits hread hnamed, htopics]
    simp [range_succ]
  have hdataOut : ((c.pass logs).renderMasked l).data =
      redactLogData c.engine.pkg l.data (c.abiOf l.emitter) l.topic0 (c.seen logs) := by
    have hne : ¬ (c.pass logs).level l = some .redacted := by
      rw [hfull]
      decide
    rw [LogPass.renderMasked, if_neg hne, ← LogCall.redactedData_eq h hl hemits hread]
  obtain ⟨fields, hrewrite, houtTopics, houtData⟩ := ParsedLog.rewrite_members
    (show pl.fields = some m by rw [hpl]; rfl) (nodup_keys_intoMap hraw) r.pkg
    (r.seen c.vis admitted)
  have hrender : r.renderLog (r.visMap admitted) a = some (some (.obj fields)) := by
    rw [LogRenderer.renderLog, hmasked, LogRenderer.visMap_pure hr, hparse]
    show (pl.rewrite r.pkg _).map some = _
    rw [hrewrite]
    rfl
  rw [← sameData_redacted_iff hdata, ← hdataOut, ← hpkg, ← habi, ← htopic0, ← houtData]
  constructor
  · rintro ⟨fields', hrender', hshown⟩
    rw [hrender, Option.some.injEq, Option.some.injEq, Json.obj.injEq] at hrender'
    rw [hrender']
    exact hshown.data
  · intro hsame
    refine ⟨fields, hrender, ?_, ?_, hsame⟩
    · rw [htopicsOut, houtTopics]
    · rw [houtTopics, length_map]
      exact hcount

/-- With pure resolvers, each of the two layers treats the logs of a list one by one,
and the two agree on a masked log of a full emitter, exactly when the data is redacted
alike by the addresses known in the two settings (and, for the explorer, no ABI that
only a neighbour brings in changes what the parameter rules admit). That logs redacted
one by one are independent is read off the output where logs have keys of their own. -/
theorem logs_one_by_one_iff {e : RedactionEngine} {r : LogRenderer} {viewerDID : String}
    {vis : String → AddressVisibility} {abiOf : String → String}
    (he : PureResolvers e viewerDID vis abiOf) (hr : r.Pure vis abiOf) (hpkg : r.pkg = e.pkg)
    (opts : RedactOpts) (participantAddrs : List String) (logs : List Log)
    (admitted : List AdmittedLog) :
    (LogsIndependent e viewerDID opts participantAddrs vis abiOf logs →
        RedactedOneByOne e viewerDID opts participantAddrs logs) ∧
      ((logs.map Log.key).Nodup → RedactedOneByOne e viewerDID opts participantAddrs logs →
        LogsIndependent e viewerDID opts participantAddrs vis abiOf logs) ∧
      (r.RendersOneByOne admitted ↔ r.Independent vis admitted) ∧
      ∀ viewerAddrs pass, viewerAddresses e.db viewerDID = .ok viewerAddrs →
        logPass e logs viewerDID opts participantAddrs = .ok pass →
        ∀ l ∈ logs, pass.verdict l = some .masked → pass.level l = some .full →
        ∀ a ∈ admitted, a.payload = .masked → SentAs a.raw l →
          (r.RendersAs admitted a (pass.render l .masked) ↔
            RedactsAlike e.pkg l.data (abiOf l.emitter) l.topic0
              (LogCall.seen ⟨e, viewerDID, opts, participantAddrs.any (isViewers viewerAddrs),
                viewerAddrs, vis, abiOf⟩ logs)
              (r.seen vis admitted)) := by
  obtain ⟨hforward, hback⟩ := redactedOneByOne_iff he opts participantAddrs logs
  refine ⟨hforward, hback, LogRenderer.rendersOneByOne_iff hr admitted, ?_⟩
  intro viewerAddrs pass hlinked hpass l hl hverdict hfull a ha hmasked hsent
  rw [logPass_pure he.visibility hlinked logs opts participantAddrs, Except.ok.injEq] at hpass
  obtain rfl := hpass
  exact @rendersAs_iff ⟨e, viewerDID, opts, participantAddrs.any (isViewers viewerAddrs),
    viewerAddrs, vis, abiOf⟩ r he hr hpkg logs l hl hverdict hfull admitted a ha hmasked hsent

/-! ### A note and a payment -/

/-- `Noted(bytes32 note)`. -/
def notedId : String := "0x4b5475e7b694267426f92e446efb242fd4ececfdcdac522c5086396f5e4a3ade"

/-- `Paid(address indexed to, bytes32 memo)`. -/
def paidId : String := "0x88c9994e0582236ce5163e0506e5fc65fbfecfb16e117d612a59dbc665a18290"

def ledger : String := "0xcccccccccccccccccccccccccccccccccccccccc"

def ledgerWord : String := "0x000000000000000000000000cccccccccccccccccccccccccccccccccccccccc"

def bobWord : String := "0x000000000000000000000000b0b0b0b0b0b0b0b0b0b0b0b0b0b0b0b0b0b0b0b0"

def carolWord : String := "0x000000000000000000000000ca01ca01ca01ca01ca01ca01ca01ca01ca01ca01"

def ledgerABI : String :=
  "[\x7b\"type\":\"event\",\"name\":\"Noted\",\"inputs\":[\x7b\"type\":\"bytes32\"\x7d]\x7d,
    \x7b\"type\":\"event\",\"name\":\"Paid\",\"inputs\":
    [\x7b\"type\":\"address\",\"indexed\":true\x7d,\x7b\"type\":\"bytes32\"\x7d]\x7d]"

def ledgerPackage : Package := .ofABI ledgerABI
  [⟨notedId, false, [⟨false, .leaf (.fixedBytes 32)⟩]⟩,
   ⟨paidId, false, [⟨true, .leaf .address⟩, ⟨false, .leaf (.fixedBytes 32)⟩]⟩]

def ledgerABIOf (address : String) : String := if address = ledger then ledgerABI else ""

def openVisibility : String → AddressVisibility := fun _ => ⟨.full, .rbacGroupMember⟩

def ledgerEngine : RedactionEngine where
  readProfile := .standard
  db := {
    getBatchVisibilityDetailed := fun _ addrs => .ok (knownMap openVisibility addrs)
    getLinkedAddresses := fun _ => .ok []
    getBatchEventAccess := fun _ _ => .ok fun _ => false }
  abiResolver := some ledgerABIOf
  eventRuleChecker := some fun _ _ => { wildcard := true }
  pkg := ledgerPackage

def ledgerRenderer : LogRenderer where
  pkg := ledgerPackage
  viewerDID := "did:alice"
  addrVisResolver := some fun _ addrs => .ok (knownMap openVisibility addrs)
  abiProvider := ⟨fun address => ledgerABIOf (toLower address), none⟩

def note (word : String) : Log where
  txHash := "0xt1"
  address := ledger
  topic0 := some notedId
  data := word

/-- A payment of the ledger, with the payee for its memo. -/
def payment (logIndex : Int) (payee : String) : Log where
  txHash := "0xt1"
  logIndex := logIndex
  address := ledger
  topic0 := some paidId
  topic1 := some payee
  data := payee

theorem ledgerEngine_pure :
    PureResolvers ledgerEngine "did:alice" openVisibility ledgerABIOf where
  visibility := fun _ => rfl
  abi := rfl
  admin := by
    intro resolve h
    cases h
  unlockable := by
    intro resolve h
    cases h
  dynamicPayload := by
    intro resolve h
    cases h

theorem ledgerRenderer_pure : ledgerRenderer.Pure openVisibility ledgerABIOf where
  resolver := ⟨_, rfl, fun _ => rfl⟩
  abi := fun _ => rfl

/-- The texts of the data in an answer of the renderer. -/
def dataTexts (answer : List Json) : List String :=
  answer.map fun log => lenientString ((log.asObject.getD []).lookup "data")

/-- A note with Bob's address is zeroed alone, and is kept beside a payment that names
Bob, in both layers. A note with the ledger's own address is kept by the explorer,
which knows its emitter, and zeroed by the renderer. -/
theorem note_kept_beside_payment :
    ¬ RedactedOneByOne ledgerEngine "did:alice" {} [] [note bobWord, payment 1 bobWord] ∧
      ¬ ledgerRenderer.RendersOneByOne
        [⟨nodeLog (note bobWord), .masked⟩, ⟨nodeLog (payment 1 bobWord), .masked⟩] ∧
      (redactLogsWithOpts ledgerEngine [note ledgerWord] "did:alice" {} []).map
          (·.map Log.data) = .ok [ledgerWord] ∧
      (ledgerRenderer.redactAdmittedLogs [⟨nodeLog (note ledgerWord), .masked⟩]).map dataTexts =
        some ["0x" ++ encodeHex zeroSlot] := by
  -- one evaluation: the same texts are read again and again
  have hall : ((redactLogsWithOpts ledgerEngine [note bobWord, payment 1 bobWord] "did:alice" {}
          []).map (·.map Log.data) ≠
        (([note bobWord, payment 1 bobWord].mapM fun l =>
          redactLogsWithOpts ledgerEngine [l] "did:alice" {} []).map List.flatten).map
            (·.map Log.data)) ∧
      ((ledgerRenderer.redactAdmittedLogs
        [⟨nodeLog (note bobWord), .masked⟩, ⟨nodeLog (payment 1 bobWord), .masked⟩]).map dataTexts ≠
        ((([⟨nodeLog (note bobWord), .masked⟩, ⟨nodeLog (payment 1 bobWord), .masked⟩] :
          List AdmittedLog).mapM
          fun a => ledgerRenderer.redactAdmittedLogs [a]).map List.flatten).map dataTexts) ∧
      (redactLogsWithOpts ledgerEngine [note ledgerWord] "did:alice" {} []).map
          (·.map Log.data) = .ok [ledgerWord] ∧
      (ledgerRenderer.redactAdmittedLogs [⟨nodeLog (note ledgerWord), .masked⟩]).map dataTexts =
        some ["0x" ++ encodeHex zeroSlot] := by
    decide +kernel
  exact ⟨fun h => hall.1 (congrArg _ h), fun h => hall.2.1 (congrArg _ h), hall.2.2⟩

/-- Payments to two accounts, each with a memo. -/
def payments : List Log := [payment 1 bobWord, payment 2 carolWord]

/-- The payments as the filter admits them. -/
def admittedPayments : List AdmittedLog := payments.map fun l => ⟨nodeLog l, .masked⟩

/-- The payees of the payments are addresses in words. -/
theorem exists_payee {l : Log} (hl : l ∈ payments) :
    ∃ i payee w, l = payment i payee ∧ payee ≠ "" ∧ topicWord payee = some w ∧
      isAddressShape w.val = true := by
  have hall : ([bobWord, carolWord].all fun payee =>
      payee != "" && (topicWord payee).any (isAddressShape ·.val)) = true := by decide +kernel
  obtain ⟨i, payee, hpayee, rfl⟩ : ∃ i payee, payee ∈ [bobWord, carolWord] ∧
      l = payment i payee := by
    rcases mem_cons.mp hl with rfl | hl
    · exact ⟨1, bobWord, mem_cons_self, rfl⟩
    · exact ⟨2, carolWord, mem_cons_of_mem _ mem_cons_self, mem_singleton.mp hl⟩
  have hword := all_eq_true.mp hall payee hpayee
  rw [Bool.and_eq_true, bne_iff_ne, Option.any_eq_true] at hword
  obtain ⟨hne, w, hword, hshape⟩ := hword
  exact ⟨i, payee, w, rfl, hne, hword, hshape⟩

section Payee

variable {payee : String} {w : Word} {i : Int}

theorem parse_payment (hne : payee ≠ "") :
    ∃ pl, ledgerRenderer.parse (nodeLog (payment i payee)) = some pl ∧
      pl.topics = [paidId, payee] ∧ pl.data = payee :=
  ⟨_, rfl, rfl, if_neg hne⟩

theorem payee_named (hword : topicWord payee = some w) (hshape : isAddressShape w.val = true)
    {topics : List (Option String)} (hmem : some payee ∈ topics) :
    slotAddress w.val ∈ topics.filterMap (·.bind extractTopicAddress) := by
  refine mem_filterMap.mpr ⟨some payee, hmem, ?_⟩
  rw [Option.bind_some, extractTopicAddress_of_word hword, if_pos hshape]

/-- Whatever the list, the explorer knows the payee from a topic. -/
theorem payee_seen (hword : topicWord payee = some w) (hshape : isAddressShape w.val = true)
    {logs : List Log} (hl : payment i payee ∈ logs) :
    LogCall.seen ⟨ledgerEngine, "did:alice", {}, false, [], openVisibility, ledgerABIOf⟩ logs
      (slotAddress w.val) = some .full := by
  have hledger : ledger ≠ "" := by decide
  refine levelOf_knownMap_of_mem (LogCall.known_of_named ledgerEngine_pure hl hledger rfl ?_)
  exact mem_append_left _ (payee_named hword hshape (by simp [Log.topicFields, payment]))

/-- And so does the renderer. -/
theorem payee_rendered (hne : payee ≠ "") (hword : topicWord payee = some w)
    (hshape : isAddressShape w.val = true) {admitted : List AdmittedLog}
    (ha : ⟨nodeLog (payment i payee), .masked⟩ ∈ admitted) :
    ledgerRenderer.seen openVisibility admitted (slotAddress w.val) = some .full := by
  obtain ⟨pl, hparse, htopics, -⟩ := @parse_payment payee i hne
  refine LogRenderer.seen_of_address ha rfl hparse (mem_eraseDups.mpr (mem_append_left _ ?_))
  exact payee_named hword hshape (by simp [ParsedLog.topicFields, htopics])

end Payee

/-- A memo that names the payee is kept by both layers, beside other payments and alone. -/
theorem payments_one_by_one :
    RedactedOneByOne ledgerEngine "did:alice" {} [] payments ∧
      ledgerRenderer.RendersOneByOne admittedPayments ∧
      ∃ pass, logPass ledgerEngine payments "did:alice" {} [] = .ok pass ∧
        ledgerRenderer.RendersAs admittedPayments ⟨nodeLog (payment 1 bobWord), .masked⟩
          (pass.render (payment 1 bobWord) .masked) := by
  have hlocal := logs_one_by_one_iff ledgerEngine_pure ledgerRenderer_pure rfl {} []
    payments admittedPayments
  have hlinked : viewerAddresses ledgerEngine.db "did:alice" = .ok [] := by decide
  have hpass := logPass_pure ledgerEngine_pure.visibility hlinked payments {} []
  refine ⟨hlocal.1 ?_, hlocal.2.2.1.mpr ?_, _, hpass, ?_⟩
  · intro viewerAddrs hviewer l hl
    obtain rfl := Except.ok.inj (hlinked.symm.trans hviewer)
    obtain ⟨i, payee, w, rfl, hne, hword, hshape⟩ := exists_payee hl
    constructor
    · intro hdataless
      rcases hdataless _ mem_cons_self rfl with hdata | htopic
      · exact absurd hdata hne
      · cases htopic
    · intro _ _
      exact redactsAlike_of_word (spelled_some (topicWord_eq_some.mp hword)).2
        ((payee_seen hword hshape hl).trans (payee_seen hword hshape mem_cons_self).symm)
  · intro _ a ha _ pl hparse
    obtain ⟨l, hl, rfl⟩ := mem_map.mp ha
    obtain ⟨i, payee, w, rfl, hne, hword, hshape⟩ := exists_payee hl
    obtain ⟨pl', hparse', -, hdata⟩ := @parse_payment payee i hne
    obtain rfl := Option.some.inj (hparse'.symm.trans hparse)
    rw [hdata]
    exact redactsAlike_of_word (spelled_some (topicWord_eq_some.mp hword)).2
      ((payee_rendered hne hword hshape ha).trans
        (payee_rendered hne hword hshape mem_cons_self).symm)
  · obtain ⟨i, payee, w, hpayment, hne, hword, hshape⟩ :=
      exists_payee (show payment 1 bobWord ∈ payments from mem_cons_self)
    obtain rfl : bobWord = payee := congrArg Log.data hpayment
    have hadmitted : ⟨nodeLog (payment 1 bobWord), .masked⟩ ∈ admittedPayments := mem_cons_self
    have hsent : SentAs (nodeLog (payment 1 bobWord)) (payment 1 bobWord) :=
      ⟨_, rfl, by decide, by decide, by decide, Or.inl (by decide)⟩
    refine (hlocal.2.2.2 [] _ hlinked hpass (payment 1 bobWord) mem_cons_self (by decide +kernel)
      (by decide +kernel) _ hadmitted rfl hsent).mpr ?_
    exact redactsAlike_of_word (spelled_some (topicWord_eq_some.mp hword)).2
      ((payee_seen hword hshape mem_cons_self).trans
        (payee_rendered hne hword hshape hadmitted).symm)

end PrivacySuite.Server
