import PrivacySuite.Explorer.Logs

/-!
# The phases over a pure database

When the database answers a batch address by address, the phases of
`RedactLogsWithOpts` come down to the set of addresses they have asked about: every
map they build is one function, cut down to the addresses known so far.
-/

namespace PrivacySuite.Explorer

open Go Rbac List

/-- A batch lookup that is a function of viewer and address. -/
def PureVisibility (db : Database) (viewerDID : String) (vis : String → AddressVisibility) : Prop :=
  ∀ addrs, db.getBatchVisibilityDetailed viewerDID addrs =
    .ok fun key => if key ∈ addrs then some (vis key) else none

/-- A function cut down to known addresses. -/
def knownMap (vis : String → AddressVisibility) (known : List String) : DetailedMap := fun key =>
  if key ∈ known then some (vis key) else none

variable {vis : String → AddressVisibility}

variable {known viewerAddrs : List String} {key viewerDID : String} {e : RedactionEngine}
  {logs : List Log} {l : Log} {opts : RedactOpts} {isParticipant : Bool}

theorem knownMap_of_mem (h : key ∈ known) : knownMap vis known key = some (vis key) :=
  if_pos h

theorem levelOf_knownMap_of_mem (h : key ∈ known) :
    levelOf (knownMap vis known) key = some (vis key).level := by
  rw [levelOf, knownMap_of_mem h, Option.map_some]

theorem resolveMore_knownMap {db : Database} (hvis : PureVisibility db viewerDID vis)
    (known addrs : List String) :
    resolveMore db viewerDID (knownMap vis known) addrs = .ok (knownMap vis (known ++ addrs)) := by
  unfold resolveMore
  have hnew : ∀ a, a ∈ addrs.filter (fun a => (knownMap vis known a).isNone) ↔
      a ∈ addrs ∧ a ∉ known := by
    intro a
    by_cases ha : a ∈ known <;> simp [knownMap, ha]
  split
  · rename_i hnone
    have hsub : ∀ a ∈ addrs, a ∈ known := by
      intro a ha
      by_contra hnot
      exact not_mem_nil (hnone ▸ (hnew a).mpr ⟨ha, hnot⟩)
    congr 1
    funext key
    by_cases hkey : key ∈ known
    · simp [knownMap, hkey]
    · have hkey' : key ∉ addrs := fun ha => hkey (hsub key ha)
      simp [knownMap, hkey, hkey']
  · rw [hvis]
    refine congrArg Except.ok (funext fun key => ?_)
    simp only [DetailedMap.mergeWith, mem_dedup, knownMap, mem_append]
    by_cases hkey : key ∈ known <;> by_cases hkey' : key ∈ addrs <;> simp [hkey, hkey']

/-! ## The pass -/

section Pass

variable (vis) (e : RedactionEngine) (logs : List Log) (opts : RedactOpts) (isParticipant : Bool)

def knownAfterTopics : List String :=
  emittersOf logs ++
    (logs.filter (scansTopics (knownMap vis (emittersOf logs)) isParticipant opts)).flatMap
      Log.topicAddresses

def knownAfterData : List String :=
  knownAfterTopics vis logs opts isParticipant ++
    (logs.filter (scansData (knownMap vis (knownAfterTopics vis logs opts isParticipant)))).flatMap
      (Log.dataAddresses e)

def purePass (viewerDID : String) (viewerAddrs : List String) : LogPass where
  engine := e
  viewerDID := viewerDID
  opts := opts
  viewerAddrs := viewerAddrs
  isParticipant := isParticipant
  emitters := emittersOf logs
  detailed := knownMap vis (knownAfterData vis e logs opts isParticipant)
  contractABIs := contractABIs e logs (knownMap vis (knownAfterTopics vis logs opts isParticipant))

end Pass

theorem logPass_pure (hvis : PureVisibility e.db viewerDID vis)
    (hlinked : viewerAddresses e.db viewerDID = .ok viewerAddrs) (logs : List Log)
    (opts : RedactOpts) (participantAddrs : List String) :
    logPass e logs viewerDID opts participantAddrs =
      .ok (purePass vis e logs opts (participantAddrs.any (isViewers viewerAddrs)) viewerDID
        viewerAddrs) := by
  have hbase : e.db.getBatchVisibilityDetailed viewerDID (emittersOf logs) =
      .ok (knownMap vis (emittersOf logs)) := hvis (emittersOf logs)
  have hbind : ∀ {α β : Type} (a : α) (k : α → Except String β),
      ((Except.ok a : Except String α) >>= k) = k a := fun _ _ => rfl
  unfold logPass
  rw [hlinked, hbind, hbase, hbind, resolveMore_knownMap hvis, hbind, resolveMore_knownMap hvis,
    hbind]
  rfl

/-! ## Emitters -/

theorem emitter_mem_emittersOf (hl : l ∈ logs) (ha : l.address ≠ "") :
    l.emitter ∈ emittersOf logs := by
  rw [emittersOf, mem_dedup]
  exact mem_map_of_mem (mem_filter.mpr ⟨hl, by simpa using ha⟩)

theorem emittersOf_isEmpty {a : String} (h : a ∈ emittersOf logs) :
    (emittersOf logs).isEmpty = false :=
  isEmpty_eq_false_iff.mpr (ne_nil_of_mem h)

theorem emitters_subset_knownAfterTopics {logs : List Log} {opts : RedactOpts}
    {isParticipant : Bool} {a : String} (h : a ∈ emittersOf logs) :
    a ∈ knownAfterTopics vis logs opts isParticipant :=
  mem_append_left _ h

theorem known_subset_knownAfterData {a : String}
    (h : a ∈ knownAfterTopics vis logs opts isParticipant) :
    a ∈ knownAfterData vis e logs opts isParticipant :=
  mem_append_left _ h

theorem purePass_level (h : l.emitter ∈ emittersOf logs) :
    (purePass vis e logs opts isParticipant viewerDID viewerAddrs).level l =
      some (vis l.emitter).level :=
  levelOf_knownMap_of_mem (known_subset_knownAfterData (emitters_subset_knownAfterTopics h))

/-! ## ABIs -/

/-- No log of the emitter carries both a topic and data, so that the third phase does
not ask for its ABI. -/
def Dataless (logs : List Log) (addr : String) : Prop :=
  ∀ l ∈ logs, l.emitter = addr → l.data = "" ∨ l.topic0 = none

section Abis

variable {e : RedactionEngine} {logs : List Log} {opts : RedactOpts} {isParticipant : Bool}
  {viewerDID : String} {viewerAddrs : List String} {abiOf : String → String}

theorem purePass_contractABIs_cases (habi : e.abiResolver = some abiOf) (addr : String) :
    (purePass vis e logs opts isParticipant viewerDID viewerAddrs).contractABIs addr =
        some (abiOf addr) ∨
      (purePass vis e logs opts isParticipant viewerDID viewerAddrs).contractABIs addr = none := by
  unfold purePass contractABIs
  dsimp only
  split
  · left
    rw [RedactionEngine.resolveContractABI, habi]
  · right
    rfl

theorem purePass_resolvedABI (habi : e.abiResolver = some abiOf) (addr : String) :
    (purePass vis e logs opts isParticipant viewerDID viewerAddrs).resolvedABI addr =
      abiOf addr := by
  have hengine : (purePass vis e logs opts isParticipant viewerDID viewerAddrs).engine = e := rfl
  unfold LogPass.resolvedABI
  rw [hengine, habi]
  rcases purePass_contractABIs_cases habi addr with h | h <;> rw [h] <;> rfl

theorem purePass_abiForCheck (habi : e.abiResolver = some abiOf) (addr : String) :
    (purePass vis e logs opts isParticipant viewerDID viewerAddrs).abiForCheck addr =
      abiOf addr := by
  unfold LogPass.abiForCheck
  rw [purePass_resolvedABI habi]
  rcases purePass_contractABIs_cases habi addr with h | h
  · rw [h]
    by_cases hempty : abiOf addr = "" <;> simp [Option.filter, hempty]
  · rw [h]
    rfl

/-- The ABI of an emitter the viewer may read is fetched, unless its logs are without
data. -/
theorem purePass_fetchedABI_cases (habi : e.abiResolver = some abiOf) {l : Log}
    (hl : l.emitter ∈ emittersOf logs)
    (hread : isNonIdentifiable (some (vis l.emitter).level) = false) :
    (¬ Dataless logs l.emitter ∧
        (purePass vis e logs opts isParticipant viewerDID viewerAddrs).fetchedABI l.emitter =
          abiOf l.emitter) ∨
      (Dataless logs l.emitter ∧
        (purePass vis e logs opts isParticipant viewerDID viewerAddrs).fetchedABI l.emitter =
          "") := by
  have hscan : ∀ l' : Log, l'.emitter = l.emitter →
      (scansData (knownMap vis (knownAfterTopics vis logs opts isParticipant)) l' = true ↔
        ¬ (l'.data = "" ∨ l'.topic0 = none)) := by
    intro l' hl'
    have hknown := @emitters_subset_knownAfterTopics vis logs opts isParticipant _ hl
    simp [scansData, hl', levelOf_knownMap_of_mem hknown, hread, Option.isSome_iff_ne_none]
  unfold LogPass.fetchedABI purePass contractABIs
  dsimp only
  split
  · rename_i hsome
    left
    simp only [Bool.and_eq_true, any_eq_true, beq_iff_eq] at hsome
    obtain ⟨-, l', hl', hscanned, hsame⟩ := hsome
    refine ⟨fun hdataless => (hscan l' hsame).mp hscanned (hdataless l' hl' hsame), ?_⟩
    rw [Option.getD_some, RedactionEngine.resolveContractABI, habi]
  · rename_i hnone
    right
    refine ⟨fun l' hl' hsame => ?_, rfl⟩
    by_contra hcarries
    refine hnone ?_
    simp only [habi, Option.isSome_some, Bool.or_true, Bool.true_and, any_eq_true,
      Bool.and_eq_true, beq_iff_eq]
    exact ⟨l', hl', (hscan l' hsame).mpr hcarries, hsame⟩

end Abis

end PrivacySuite.Explorer
