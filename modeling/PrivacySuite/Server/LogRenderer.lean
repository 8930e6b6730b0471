import PrivacySuite.Explorer.Rows
import PrivacySuite.Explorer.SlotMasks
import PrivacySuite.Go.JsonMap

/-!
# Rendering admitted logs

`redactAdmittedLogs` of `internal/server/rpc_log_field_redaction.go`: the logs the
RPC filter admitted, each under the payload policy it was admitted with. A full log
goes out as the node sent it; of a masked one the topics and the data are rewritten,
after one lookup of the visibility of all addresses the masked logs embed.
-/

namespace PrivacySuite.Server

open Go Abi Rbac Explorer

/-! ## Parsed logs -/

/-- A masked log with what the renderer reads of it. `fields` is the object of the
log, `none` when it is `null`. -/
structure ParsedLog where
  fields : Option (List (String × Json))
  topics : List String
  data : String
  abi : String

namespace ParsedLog

variable (pl : ParsedLog)

def topicFields : List (Option String) := pl.topics.map some

def topic0 : Option String := pl.topics.head?

def addresses (pkg : Package) : List String :=
  extractLogAddresses pkg pl.topicFields pl.data pl.abi pl.topic0

def redacted (pkg : Package) (visMap : VisibilityMap) : List (Option String) × String :=
  redactLogAddressFields pkg pl.topicFields pl.data pl.abi pl.topic0 visMap

/-- The rewritten log; assigning to the members of `null` panics. -/
def rewrite (pkg : Package) (visMap : VisibilityMap) : Option Json :=
  pl.fields.map fun fields =>
    marshalMap (mapSet
      (mapSet fields "topics"
        (.arr ((pl.redacted pkg visMap).1.map fun topic => .str (topic.getD ""))))
      "data" (.str (pl.redacted pkg visMap).2))

end ParsedLog

/-! ## The renderer -/

/-- What rendering is given beside the logs. `addrVisResolver` is `none` when it is
not wired. -/
structure LogRenderer where
  pkg : Package
  viewerDID : String
  addrVisResolver : Option ((viewerDID : String) → List String → Except String DetailedMap)
  abiProvider : AbiProvider

namespace LogRenderer

variable (r : LogRenderer)

/-- The members of a log, read with errors ignored. -/
def parseFields (fields : Option (List (String × Json))) : ParsedLog where
  fields := fields
  topics := lenientStrings ((fields.getD []).lookup "topics")
  data := lenientString ((fields.getD []).lookup "data")
  abi := r.abiProvider.getContractABI (lenientString ((fields.getD []).lookup "address"))

def parse (raw : Json) : Option ParsedLog := (intoMap raw).map r.parseFields

/-- The addresses one admitted log has looked up; a full log needs none. -/
def addressesOf (a : AdmittedLog) : List String :=
  match a.payload with
  | .full => []
  | .masked => ((r.parse a.raw).map (·.addresses r.pkg)).getD []

/-- The visibility the logs are rendered by. A failed lookup leaves it empty. -/
def visMap (admitted : List AdmittedLog) : VisibilityMap :=
  match r.addrVisResolver with
  | none => fun _ => none
  | some resolve =>
      if admitted.flatMap r.addressesOf = [] then fun _ => none
      else
        match resolve r.viewerDID (admitted.flatMap r.addressesOf).dedup with
        | .ok detailed => levelOf detailed
        | .error _ => fun _ => none

/-- One admitted log: `none` is a panic, `some none` a log that is dropped. -/
def renderLog (visMap : VisibilityMap) (a : AdmittedLog) : Option (Option Json) :=
  match a.payload with
  | .full => some (some a.raw)
  | .masked =>
      match r.parse a.raw with
      | none => some none
      | some pl => (pl.rewrite r.pkg visMap).map some

/-- `redactAdmittedLogs`; `none` when it panics. -/
def redactAdmittedLogs (admitted : List AdmittedLog) : Option (List Json) :=
  if r.addrVisResolver.isNone then some (admitted.map (·.raw))
  else (admitted.mapM (r.renderLog (r.visMap admitted))).map List.reduceOption

end LogRenderer

/-! ## What the visibility changes -/

theorem ParsedLog.redacted_topics_congr {pl : ParsedLog} {pkg : Package}
    {visMap visMap' : VisibilityMap} (h : ∀ a ∈ pl.addresses pkg, visMap a = visMap' a) :
    (pl.redacted pkg visMap).1 = (pl.redacted pkg visMap').1 := by
  refine List.map_congr_left fun topic htopic => ?_
  cases topic with
  | none => rfl
  | some text =>
    refine congrArg some (redactTopicField_congr fun addr haddr => h addr ?_)
    unfold ParsedLog.addresses extractLogAddresses
    rw [List.mem_eraseDups]
    exact List.mem_append_left _ (List.mem_filterMap.mpr ⟨some text, htopic, haddr⟩)

theorem ParsedLog.rewrite_eq_iff {pl : ParsedLog} {pkg : Package} {visMap visMap' : VisibilityMap}
    (hfields : ∀ m, pl.fields = some m → (m.map Prod.fst).Nodup)
    (h : ∀ a ∈ pl.addresses pkg, visMap a = visMap' a) :
    pl.rewrite pkg visMap = pl.rewrite pkg visMap' ↔
      (pl.fields.isSome = true → RedactsAlike pkg pl.data pl.abi pl.topic0 visMap visMap') := by
  unfold ParsedLog.rewrite
  cases hm : pl.fields with
  | none => simp
  | some m =>
    rw [Option.map_some, Option.map_some, Option.some.injEq, ParsedLog.redacted_topics_congr h,
      ← redactLogData_eq_iff]
    constructor
    · intro heq _
      have hnodup := nodup_keys_mapSet (nodup_keys_mapSet (hfields m hm) "topics"
        (.arr ((pl.redacted pkg visMap').1.map fun topic => .str (topic.getD "")))) "data"
        (.str (pl.redacted pkg visMap').2)
      have hdata := lookup_of_marshalMap_eq heq hnodup (lookup_mapSet_self _ _ _)
      rw [lookup_mapSet_self] at hdata
      exact (Json.str.inj (Option.some.inj hdata)).symm
    · intro hdata
      show marshalMap (mapSet _ "data" (.str (redactLogData _ _ _ _ visMap))) = _
      rw [hdata rfl]
      rfl

theorem ParsedLog.rewrite_members {pl : ParsedLog} {m : List (String × Json)}
    (hm : pl.fields = some m) (hnodup : (m.map Prod.fst).Nodup) (pkg : Package)
    (visMap : VisibilityMap) :
    ∃ fields, pl.rewrite pkg visMap = some (.obj fields) ∧
      lenientStrings (fields.lookup "topics") = pl.topics.map (redactTopicField visMap) ∧
      lenientString (fields.lookup "data") =
        redactLogData pkg pl.data pl.abi pl.topic0 visMap := by
  have hkeys := nodup_keys_mapSet (nodup_keys_mapSet hnodup "topics"
    (.arr ((pl.redacted pkg visMap).1.map fun topic => .str (topic.getD "")))) "data"
    (.str (pl.redacted pkg visMap).2)
  refine ⟨_, by rw [ParsedLog.rewrite, hm, Option.map_some, marshalMap], ?_, ?_⟩
  · rw [lookup_insertionSort hkeys, lookup_mapSet_of_ne _ _ (by decide), lookup_mapSet_self]
    have htexts : ((pl.redacted pkg visMap).1.map fun topic => Json.str (topic.getD "")) =
        (pl.topics.map (redactTopicField visMap)).map .str := by
      simp [ParsedLog.redacted, redactLogAddressFields, ParsedLog.topicFields, Function.comp_def]
    rw [htexts, lenientStrings_texts]
  · rw [lookup_insertionSort hkeys, lookup_mapSet_self]
    rfl

end PrivacySuite.Server
