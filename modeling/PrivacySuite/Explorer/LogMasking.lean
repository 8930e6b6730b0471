import PrivacySuite.Explorer.LogFields

/-!
# What field redaction hides

`RedactLogAddressFields` against the declaration of the event: it is asked to leave
a log that still decodes, with no address of a private level in it at any depth, and
with everything that does not look like an address as it was.

On topics it does. On data it works by slot number, the `i`-th parameter at the
`i`-th word, so what it masks is described here word by word (`maskWords`), and
compared with the words of the declared components.
-/

namespace PrivacySuite.Explorer

open Go Abi List

variable (pkg : Package) (visMap : VisibilityMap)

/-- What redaction owes one component: a private address is the zero address, and a
word that is neither an address nor shaped like one is kept. -/
def MaskedComponent (c : Option Leaf × Word) (out : Word) : Prop :=
  (c.1 = some .address → visMap (slotAddress c.2.val) ≠ some .full → out = zeroWord) ∧
    (c.1 ≠ some .address → isAddressShape c.2.val = false → out = c.2)

/-- The log decodes under the declaration, to masked components. -/
def LogMasked (ev : Event) (ws : List Word) (vs : List Value) (topics : List (Option String))
    (data : String) : Prop :=
  ∃ ws' vs', ev.decodeLog topics data = some (ws', vs') ∧
    List.Forall₂ (MaskedComponent visMap) (ev.topicComponents ws) ws' ∧
    List.Forall₂ (MaskedComponent visMap) (ev.dataComponents vs) (wordsOf vs')

/-! ## Topics -/

def maskTopic (w : Word) : Word :=
  if isAddressShape w.val ∧ visMap (slotAddress w.val) ≠ some .full then zeroWord else w

variable {w : Word} {ts : List AbiType} {ws : List Word}

theorem extractTopicAddress_of_word {text : String} (h : topicWord text = some w) :
    extractTopicAddress text = if isAddressShape w.val then some (slotAddress w.val) else none := by
  have hlower := toLower_of_spelled (topicWord_eq_some.mp h)
  have hlist : ("0x" ++ encodeHex w.val).toList = '0' :: 'x' :: w.val.flatMap hexPair := by
    rw [String.toList_append, toList_encodeHex]
    rfl
  have hshape : (((("0x" ++ encodeHex w.val).toList.drop 2).take 24).all (· == '0')) =
      isAddressShape w.val := by
    rw [hlist, drop_succ_cons, drop_succ_cons, drop_zero,
      show 24 = 2 * 12 from rfl, take_flatMap_hexPair, all_zero_flatMap_hexPair, isAddressShape]
  have hdrop : String.ofList (("0x" ++ encodeHex w.val).toList.drop 26) =
      encodeHex (w.val.drop 12) := by
    rw [hlist, drop_succ_cons, drop_succ_cons, show 24 = 2 * 12 from rfl,
      drop_flatMap_hexPair, ← toList_encodeHex, String.ofList_toList]
  have hlen : byteLen ("0x" ++ encodeHex w.val) = 66 := by rw [byteLen_encodeHex, w.property]
  unfold extractTopicAddress Rbac.paddedAddress
  rw [hlower, hdrop, hshape, hlen]
  simp [slotAddress]

theorem topicWord_zeroTopic : topicWord zeroTopic = some zeroWord := by decide

theorem redactTopicAddress_of_private {addr : String} {level : Option VisibilityLevel}
    (h : level ≠ some .full) : redactTopicAddress addr level = zeroTopic := by
  rcases level with _ | level
  · rfl
  · cases level with
    | full => exact absurd rfl h
    | pseudonymous => rfl
    | redacted => rfl
    | hidden => rfl

theorem topicWord_redactTopicField {text : String} (h : topicWord text = some w) :
    topicWord (redactTopicField visMap text) = some (maskTopic visMap w) := by
  unfold redactTopicField maskTopic
  rw [extractTopicAddress_of_word h]
  by_cases hshape : isAddressShape w.val = true
  · by_cases hfull : visMap (slotAddress w.val) = some .full
    · simp [hshape, hfull, h]
    · simp [hshape, hfull, redactTopicAddress_of_private hfull, topicWord_zeroTopic]
  · simp [hshape, h]

theorem validTopic_maskTopic {t : AbiType} (h : t.validTopic w = true) :
    t.validTopic (maskTopic visMap w) = true := by
  unfold maskTopic
  split
  · unfold AbiType.validTopic
    cases t.topicLeaf with
    | none => rfl
    | some l => exact l.valid_zeroWord
  · exact h

theorem maskedComponent_maskTopic {t : AbiType} (h : t.validTopic w = true) :
    MaskedComponent visMap (t.topicLeaf, w) (maskTopic visMap w) := by
  constructor
  · intro hleaf hprivate
    have hshape : isAddressShape w.val = true := by
      simpa [AbiType.validTopic, show t.topicLeaf = some .address from hleaf, Leaf.valid] using h
    exact if_pos ⟨hshape, hprivate⟩
  · intro _ hshape
    have hshape' : isAddressShape w.val = false := hshape
    exact if_neg fun hboth => by simp [hshape'] at hboth

theorem decodeTopics_redacted {topics : List (Option String)}
    (h : decodeTopics ts topics = some ws) :
    ∃ ws', decodeTopics ts (topics.map (·.map (redactTopicField visMap))) = some ws' ∧
      List.Forall₂ (MaskedComponent visMap) ((ts.map AbiType.topicLeaf).zip ws) ws' := by
  induction ts, topics using decodeTopics.induct generalizing ws with
  | case1 =>
    obtain rfl : [] = ws := Option.some.inj h
    exact ⟨[], rfl, List.Forall₂.nil⟩
  | case2 t ts text rest ih =>
    simp only [decodeTopics, Option.bind_eq_bind, Option.bind_eq_some_iff,
      Option.ite_none_right_eq_some, Option.some.injEq] at h
    obtain ⟨w, hw, ws₀, hws, hvalid, rfl⟩ := h
    obtain ⟨ws', hdec, hmasked⟩ := ih hws
    refine ⟨maskTopic visMap w :: ws', ?_,
      List.Forall₂.cons (maskedComponent_maskTopic visMap hvalid) hmasked⟩
    simp [decodeTopics, topicWord_redactTopicField visMap hw, hdec,
      validTopic_maskTopic visMap hvalid]
  | case3 ts topics hnil hcons =>
    rw [decodeTopics] at h
    · cases h
    · exact hnil
    · exact hcons

/-! ## Data -/

/-- The parameter types the scan of the data goes by, for data of `count` words. -/
def scannedSlots (contractABI : String) (topic0 : Option String) (count : Nat) : List AbiType :=
  match topic0.bind (matchedEvent pkg contractABI) with
  | some ev => if count < ev.nonIndexed.length then [] else ev.nonIndexed
  | none => []

def maskWord (t : AbiType) (w : Word) : Word :=
  if isMaskedSlot visMap t w.val then zeroWord else w

/-- The words of the data after redaction: the `i`-th word goes by the `i`-th type. -/
def maskWords : List AbiType → List Word → List Word
  | t :: ts, w :: ws => maskWord visMap t w :: maskWords ts ws
  | [], ws => ws
  | _ :: _, [] => []

@[simp] theorem maskWords_nil (ws : List Word) : maskWords visMap [] ws = ws := by
  cases ws <;> rfl

theorem maskSlots_bytesOf (h : ts.length ≤ ws.length) :
    maskSlots visMap ts (bytesOf ws) = bytesOf (maskWords visMap ts ws) := by
  induction ts generalizing ws with
  | nil => simp [maskSlots]
  | cons t ts ih =>
    cases ws with
    | nil => simp at h
    | cons w ws =>
      rw [maskSlots, take_bytesOf_cons, drop_bytesOf_cons, ih (by simpa using h), maskWords,
        bytesOf_cons, maskWord]
      split <;> rfl

theorem maskWords_of_not_masks (h : ts.length ≤ ws.length)
    (hnone : masksSomeSlot visMap ts (bytesOf ws) = false) : maskWords visMap ts ws = ws := by
  induction ts generalizing ws with
  | nil => simp
  | cons t ts ih =>
    cases ws with
    | nil => rfl
    | cons w ws =>
      rw [masksSomeSlot, take_bytesOf_cons, drop_bytesOf_cons, Bool.or_eq_false_iff] at hnone
      rw [maskWords, ih (by simpa using h) hnone.2, maskWord, hnone.1]
      rfl

theorem length_scannedSlots_le (contractABI : String) (topic0 : Option String) (count : Nat) :
    (scannedSlots pkg contractABI topic0 count).length ≤ count := by
  unfold scannedSlots
  split
  · split
    · exact Nat.zero_le count
    · omega
  · exact Nat.zero_le count

theorem dataSlots_of_spelled {data contractABI : String} {topic0 : Option String}
    {ws : List Word} (h : spelled data = some (bytesOf ws)) :
    dataSlots pkg data contractABI topic0 =
      if scannedSlots pkg contractABI topic0 ws.length = [] then none
      else some (scannedSlots pkg contractABI topic0 ws.length, bytesOf ws) := by
  obtain ⟨hp, hd⟩ := spelled_some h
  have hne : data ≠ "" := by
    rintro rfl
    cases hp
  unfold dataSlots scannedSlots
  cases topic0 with
  | none => rfl
  | some topic =>
    cases hev : matchedEvent pkg contractABI topic with
    | none => simp [hev]
    | some ev =>
      have hlong : 32 * ws.length < ev.nonIndexed.length * 32 ↔
          ws.length < ev.nonIndexed.length := by omega
      by_cases hshort : ws.length < ev.nonIndexed.length
      · simp [hev, hd, hlong, hshort]
      · simp [hev, hd, hne, hlong, hshort]

theorem spelled_redactLogData {data contractABI : String} {topic0 : Option String}
    {ws : List Word} (h : spelled data = some (bytesOf ws)) :
    spelled (redactLogData pkg data contractABI topic0 visMap) =
      some (bytesOf (maskWords visMap (scannedSlots pkg contractABI topic0 ws.length) ws)) := by
  have hslots := @dataSlots_of_spelled pkg data contractABI topic0 ws h
  have hcount := length_scannedSlots_le pkg contractABI topic0 ws.length
  generalize scannedSlots pkg contractABI topic0 ws.length = ts at hslots hcount
  unfold redactLogData
  rw [hslots]
  by_cases hts : ts = []
  · simp [hts, h]
  · rw [if_neg hts]
    by_cases hmask : masksSomeSlot visMap ts (bytesOf ws) = true
    · simp [hmask, (spelled_some h).1, maskSlots_bytesOf visMap hcount]
    · rw [Bool.not_eq_true] at hmask
      simp [hmask, h, maskWords_of_not_masks visMap hcount hmask]

theorem fits_maskWords {leaves : List Leaf} (h : Fits leaves ws) (ts : List AbiType) :
    Fits leaves (maskWords visMap ts ws) := by
  induction h generalizing ts with
  | nil => cases ts <;> exact List.Forall₂.nil
  | @cons l w leaves ws hw hrest ih =>
    cases ts with
    | nil => exact List.Forall₂.cons hw hrest
    | cons t ts =>
      refine List.Forall₂.cons ?_ (ih ts)
      unfold maskWord
      split
      · exact l.valid_zeroWord
      · exact hw

theorem maskedComponent_maskWord_iff {l : Leaf} (hw : l.valid w = true) (t : AbiType) :
    MaskedComponent visMap (some l, w) (maskWord visMap t w) ↔
      (l = .address → w ≠ zeroWord → visMap (slotAddress w.val) ≠ some .full →
        isScannedType t = true) := by
  unfold MaskedComponent maskWord
  constructor
  · rintro ⟨haddress, -⟩ rfl hne hprivate
    by_contra hscan
    have hkeep := haddress rfl hprivate
    rw [if_neg (by simp [isMaskedSlot, hscan])] at hkeep
    exact hne hkeep
  · intro hscan
    refine ⟨fun hl hprivate => ?_, fun _ hshape => if_neg (by simp_all [isMaskedSlot])⟩
    obtain rfl := Option.some.inj hl
    by_cases hzero : w = zeroWord
    · simp [hzero]
    · have hshape : isAddressShape w.val = true := hw
      have hprivate' : visMap (slotAddress w.val) ≠ some .full := hprivate
      exact if_pos (by simp [isMaskedSlot, hshape, hprivate', hscan rfl hzero hprivate'])

/-- The private addresses among the components sit at words the scan goes by. -/
def AddressesScanned (types : List AbiType) (components : List (Option Leaf × Word)) : Prop :=
  ∀ (i : Nat) (w : Word), components[i]? = some (some Leaf.address, w) → w ≠ zeroWord →
    visMap (slotAddress w.val) ≠ some .full → ∃ t, types[i]? = some t ∧ isScannedType t = true

theorem addressesScanned_cons_iff {l : Leaf} {types : List AbiType}
    {components : List (Option Leaf × Word)} :
    AddressesScanned visMap types ((some l, w) :: components) ↔
      (l = .address → w ≠ zeroWord → visMap (slotAddress w.val) ≠ some .full →
        ∃ t, types.head? = some t ∧ isScannedType t = true) ∧
      AddressesScanned visMap types.tail components := by
  constructor
  · intro h
    refine ⟨fun hl hne hprivate => ?_, fun i w' hi hne hprivate => ?_⟩
    · obtain ⟨t, ht, hscan⟩ := h 0 w (by rw [hl, getElem?_cons_zero]) hne hprivate
      exact ⟨t, by rw [head?_eq_getElem?, ht], hscan⟩
    · obtain ⟨t, ht, hscan⟩ := h (i + 1) w' (by rwa [getElem?_cons_succ]) hne hprivate
      exact ⟨t, by rw [getElem?_tail, ht], hscan⟩
  · rintro ⟨hhead, htail⟩ i w' hi hne hprivate
    cases i with
    | zero =>
      rw [getElem?_cons_zero, Option.some.injEq, Prod.mk.injEq, Option.some.injEq] at hi
      obtain ⟨hl, rfl⟩ := hi
      obtain ⟨t, ht, hscan⟩ := hhead hl hne hprivate
      exact ⟨t, by rw [← head?_eq_getElem?, ht], hscan⟩
    | succ i =>
      rw [getElem?_cons_succ] at hi
      obtain ⟨t, ht, hscan⟩ := htail i w' hi hne hprivate
      exact ⟨t, by rwa [getElem?_tail] at ht, hscan⟩

theorem masked_maskWords_iff {leaves : List Leaf} (h : Fits leaves ws) (types : List AbiType) :
    List.Forall₂ (MaskedComponent visMap) ((leaves.map some).zip ws) (maskWords visMap types ws) ↔
      AddressesScanned visMap types ((leaves.map some).zip ws) := by
  induction h generalizing types with
  | nil => cases types <;> simp [AddressesScanned, maskWords]
  | @cons l w leaves ws hw _ ih =>
    rw [map_cons, zip_cons_cons, addressesScanned_cons_iff]
    cases types with
    | nil =>
      -- No type is left: a word stands as it is, which masks it only if it is public.
      have hkeep : MaskedComponent visMap (some l, w) w ↔
          (l = .address → w ≠ zeroWord → visMap (slotAddress w.val) ≠ some .full → False) := by
        have hscan := maskedComponent_maskWord_iff visMap hw .bytes
        simpa [maskWord, isMaskedSlot, isScannedType] using hscan
      have hrest := ih []
      rw [maskWords_nil] at hrest
      rw [maskWords_nil, forall₂_cons, hkeep, hrest]
      simp
    | cons t types =>
      rw [maskWords, forall₂_cons, maskedComponent_maskWord_iff visMap hw, ih types]
      simp

/-! ## Logs -/

/-- Redaction keeps a log decodable, masks every private address in its topics, and
masks the private addresses of its data exactly when each of them sits at the word
whose number is that of an `address` or `bytes32` parameter: when the arrays and
tuples declared before it have not moved it, and it is not inside one. -/
theorem redactLogAddressFields_masked_iff (ev : Event) (topics : List (Option String))
    (data contractABI : String) (topic0 : Option String) (ws : List Word) (vs : List Value)
    (h : ev.decodeLog topics data = some (ws, vs)) :
    LogMasked visMap ev ws vs
        (redactLogAddressFields pkg topics data contractABI topic0 visMap).1
        (redactLogAddressFields pkg topics data contractABI topic0 visMap).2 ↔
      AddressesScanned visMap (scannedSlots pkg contractABI topic0 (wordsOf vs).length)
        (ev.dataComponents vs) := by
  simp only [Event.decodeLog, Option.bind_eq_bind, Option.bind_eq_some_iff, Option.pure_def,
    Option.some.injEq, Prod.mk.injEq] at h
  obtain ⟨params, hparams, ws₀, htopics, vs₀, hdata, rfl, rfl⟩ := h
  obtain ⟨hspelled, hfits, hstatic⟩ := ev.decodeData_eq_some hdata
  obtain ⟨ws', htopics', hmasked⟩ := decodeTopics_redacted visMap htopics
  have hparams' : ev.paramTopics (topics.map (·.map (redactTopicField visMap))) =
      some (params.map (·.map (redactTopicField visMap))) := by
    unfold Event.paramTopics at hparams ⊢
    split at hparams
    · obtain rfl := Option.some.inj hparams
      simp_all
    · obtain rfl := Option.some.inj hparams
      simp_all
    · cases hparams
  have hspelled' := @spelled_redactLogData pkg visMap data contractABI topic0 _ hspelled
  obtain ⟨vs', hdata', hwords⟩ :=
    ev.decodeData_of_fits hspelled' (fits_maskWords visMap hfits _) hstatic
  have hdec : ev.decodeLog (topics.map (·.map (redactTopicField visMap)))
      (redactLogData pkg data contractABI topic0 visMap) = some (ws', vs') := by
    simp [Event.decodeLog, hparams', htopics', hdata']
  rw [Event.dataComponents, ← masked_maskWords_iff visMap hfits, ← hwords]
  constructor
  · rintro ⟨ws'', vs'', hdec', -, hvalues⟩
    obtain ⟨-, rfl⟩ := Prod.mk.inj (Option.some.inj (hdec.symm.trans hdec'))
    exact hvalues
  · intro hvalues
    exact ⟨ws', vs', hdec, hmasked, hvalues⟩

/-! ### A payment to one account, and a settlement between two -/

def accountWord : Word := ⟨List.replicate 12 0 ++ List.replicate 20 0xaa, rfl⟩

def oneWord : Word := ⟨List.replicate 31 0 ++ [1], rfl⟩

def paidId : String := "0x737c69225d647e5994eab1a6c301bf6d9232beb2759ae1e27a8966b4732bc489"

def settledId : String := "0xaa76c3e7dbc3a589e877b82221e0b898f1382e490e772480a65c36e33fa559bd"

/-- `Paid(address payee, uint256 amount)`. -/
def paidEvent : Event where
  id := paidId
  inputs := [⟨false, .leaf .address⟩, ⟨false, .leaf (.uint 256)⟩]

/-- `Settled(address[2] parties, uint256 amount)`. -/
def settledEvent : Event where
  id := settledId
  inputs := [⟨false, .array (.leaf .address) 2⟩, ⟨false, .leaf (.uint 256)⟩]

def sampleABI : String :=
  "[\x7b\"type\":\"event\",\"name\":\"Paid\",\"inputs\":
    [\x7b\"type\":\"address\"\x7d,\x7b\"type\":\"uint256\"\x7d]\x7d,
    \x7b\"type\":\"event\",\"name\":\"Settled\",\"inputs\":
    [\x7b\"type\":\"address[2]\"\x7d,\x7b\"type\":\"uint256\"\x7d]\x7d]"

theorem sampleABI_ne : sampleABI ≠ "" := by decide +kernel

def samplePackage : Package := .ofABI sampleABI [paidEvent, settledEvent]

def paidValues : List Value := [.word accountWord, .word oneWord]

def paidData : String := "0x" ++ encodeHex (bytesOf (wordsOf paidValues))

def settledValues : List Value := [.items [.word accountWord, .word accountWord], .word oneWord]

def settledData : String := "0x" ++ encodeHex (bytesOf (wordsOf settledValues))

/-- The payee is hidden. -/
theorem paid_masked :
    paidEvent.decodeLog [some paidId] paidData = some ([], paidValues) ∧
      LogMasked (fun _ => none) paidEvent [] paidValues
        (redactLogAddressFields samplePackage [some paidId] paidData sampleABI (some paidId)
          fun _ => none).1
        (redactLogAddressFields samplePackage [some paidId] paidData sampleABI (some paidId)
          fun _ => none).2 := by
  have hdec : paidEvent.decodeLog [some paidId] paidData = some ([], paidValues) := by
    simp only [Event.decodeLog, Event.decodeData, paidData, spelled_encodeHex, toWords_bytesOf,
      Option.bind_eq_bind, Option.bind_some]
    rfl
  refine ⟨hdec, (redactLogAddressFields_masked_iff _ _ _ _ _ _ _ _ _ hdec).mpr ?_⟩
  have hslots : scannedSlots samplePackage sampleABI (some paidId) (wordsOf paidValues).length =
      [.leaf .address, .leaf (.uint 256)] := by
    have hev : matchedEvent samplePackage sampleABI paidId = some paidEvent := by
      simp [matchedEvent, Rbac.findEventByTopic0, samplePackage, sampleABI_ne, Package.ofABI,
        paidEvent]
    rw [scannedSlots, Option.bind_some, hev]
    rfl
  rw [hslots]
  intro i w hi _ _
  rcases i with _ | _ | i
  · exact ⟨.leaf .address, rfl, rfl⟩
  all_goals simp [Event.dataComponents, paidEvent, Event.nonIndexed, leavesOf, AbiType.leaves,
      paidValues, wordsOf, Value.words] at hi

/-- Both parties of the settlement stay in the data, though the viewer may see
neither. -/
theorem settled_parties_unmasked :
    settledEvent.decodeLog [some settledId] settledData = some ([], settledValues) ∧
      ¬ LogMasked (fun _ => none) settledEvent [] settledValues
        (redactLogAddressFields samplePackage [some settledId] settledData sampleABI
          (some settledId) fun _ => none).1
        (redactLogAddressFields samplePackage [some settledId] settledData sampleABI
          (some settledId) fun _ => none).2 := by
  have hspelled : spelled settledData = some (bytesOf (wordsOf settledValues)) :=
    spelled_encodeHex _
  have hdec : ∀ topic,
      settledEvent.decodeLog [some topic] settledData = some ([], settledValues) := by
    intro topic
    simp only [Event.decodeLog, Event.decodeData, hspelled, toWords_bytesOf, Option.bind_eq_bind,
      Option.bind_some]
    rfl
  refine ⟨hdec settledId, ?_⟩
  rintro ⟨ws', vs', hdec', -, hvalues⟩
  -- Neither an array nor a number is scanned.
  have hsame : redactLogData samplePackage settledData sampleABI (some settledId) (fun _ => none) =
      settledData := by
    have hid : (toLower paidEvent.id == toLower settledId) = false := by decide +kernel
    have hev : matchedEvent samplePackage sampleABI settledId = some settledEvent := by
      simp [matchedEvent, Rbac.findEventByTopic0, samplePackage, sampleABI_ne, Package.ofABI,
        hid, settledEvent]
    rw [redactLogData, dataSlots_of_spelled _ hspelled, scannedSlots, Option.bind_some, hev]
    rfl
  rw [redactLogAddressFields, hsame] at hdec'
  obtain ⟨-, rfl⟩ := Prod.mk.inj (Option.some.inj ((hdec _).symm.trans hdec'))
  -- The first component of the data is a private address, and it is not zero.
  have hfirst := (forall₂_cons.mp hvalues).1
  exact absurd (hfirst.1 rfl (by simp)) (by decide)

end PrivacySuite.Explorer
