import PrivacySuite.Go.Phase
import PrivacySuite.Go.Utf8
import PrivacySuite.NodeApproval.SignedBatch

/-!
# The receiver of the Besu plugin

`ApprovalBatch.decode` of the Besu plugin. A Java `long` is a signed word, so the
times and the chain id are `Int64` and are compared through `compareUnsigned`; a
`ByteBuffer` is the bytes it has left. A Java string is the list of its characters:
the ones read here are single code units.
-/

namespace PrivacySuite.Besu

open Codec NodeApproval Phase List

structure Approval where
  hashMode : Int
  chainId : Int64
  txHash : Hash
  fingerprint : Hash
  reserved : Hash

/-- A structurally valid batch whose signature has not been checked yet. -/
structure Decoded where
  keyId : List Char
  issuedAt : Int64
  expiresAt : Int64
  approvals : List Approval
  message : List UInt8
  signature : List UInt8

def hashStrict : Int := 0

def hashCalls : Int := 3

def itemSize : Nat := 120

def maxKeyId : Nat := 64

def maxApprovals : Nat := 32

def signatureSize : Nat := 64

def domainStrict : List UInt8 := ascii "OPS_APPROVAL_V1\x00"

def domainCalls : List UInt8 := ascii "OPS_APPROVAL_V3\x00"

def domain : List UInt8 := ascii "OPS_APPROVAL_BATCH_V2\x00"

def maxEnvelope : Nat :=
  domain.length + 1 + maxKeyId + 8 + 8 + 4 + maxApprovals * itemSize + signatureSize

/-- A byte that is not ASCII becomes U+FFFD. -/
def asciiChar (b : UInt8) : Char := if b.toNat < 0x80 then Char.ofNat b.toNat else '�'

/-- `new String(bytes, US_ASCII)`. -/
def asciiText (bytes : List UInt8) : List Char := bytes.map asciiChar

/-- `Character.isLetterOrDigit(c) && c < 128`. -/
def asciiLetterOrDigit (c : Char) : Bool :=
  (0x30 ≤ c.toNat && c.toNat ≤ 0x39) || (0x41 ≤ c.toNat && c.toNat ≤ 0x5A) ||
    (0x61 ≤ c.toNat && c.toNat ≤ 0x7A)

def keyChar (c : Char) : Bool :=
  asciiLetterOrDigit c || c == '.' || c == '_' || c == ':' || c == '-'

def validKeyId (id : List Char) : Bool :=
  if id = [] ∨ id.length > 64 then false else id.all keyChar

/-- `ByteBuffer.getLong()`. -/
def getLong (b : List UInt8) : Int64 := (u64Of (b.take 8)).toInt64

/-- `Integer.toUnsignedLong(ByteBuffer.getInt())`. -/
def getUnsignedInt (b : List UInt8) : Nat := beNat (b.take 4)

/-- Thirty-two bytes of the buffer; the length has been checked. -/
def getHash (b : List UInt8) : Hash := block 32 b

def modeOf (text : List UInt8) : Except String Int :=
  if text = domainCalls then .ok hashCalls
  else if text = domainStrict then .ok hashStrict
  else .error "unknown approval domain"

def Approval.parse (b : List UInt8) : Except String Approval := do
  onlyIf (b.length < itemSize) (.error "truncated approval item")
  let mode ← modeOf (b.take domainStrict.length)
  return {
    hashMode := mode
    chainId := getLong (b.drop 16)
    txHash := getHash (b.drop 24)
    fingerprint := getHash (b.drop 56)
    reserved := getHash (b.drop 88) }

/-- The loop over the items; an item leaves the buffer 120 bytes further on. -/
def parseAll : Nat → List UInt8 → Except String (List Approval)
  | 0, _ => .ok []
  | count + 1, b => do
      let approval ← Approval.parse b
      let rest ← parseAll count (b.drop itemSize)
      return approval :: rest

/-- The counted part: `b` is what follows the count, `header` the bytes before it. -/
def decodeItems (body : List UInt8) (keyId : List Char) (issuedAt expiresAt : Int64)
    (header count : Nat) (b : List UInt8) : Except String Decoded := do
  onlyIf (expiresAt.toUInt64 ≤ issuedAt.toUInt64) (.error "batch expires before it is issued")
  onlyIf (count < 1 ∨ count > maxApprovals) (.error ("invalid approval count " ++ toString count))
  onlyIf (body.length ≠ header + count * itemSize + signatureSize)
    (.error "envelope length does not match approval count")
  let approvals ← parseAll count b
  return {
    keyId := keyId
    issuedAt := issuedAt
    expiresAt := expiresAt
    approvals := approvals
    message := body.take (header + count * itemSize)
    signature := body.drop (header + count * itemSize) }

def decodeKey (body : List UInt8) (keyLength : Nat) (b : List UInt8) : Except String Decoded := do
  onlyIf (keyLength < 1 ∨ keyLength > maxKeyId ∨ b.length < keyLength + 16 + 4)
    (.error ("invalid key id length " ++ toString keyLength))
  onlyIf (validKeyId (asciiText (b.take keyLength)) = false) (.error "invalid key id")
  decodeItems body (asciiText (b.take keyLength)) (getLong (b.drop keyLength))
    (getLong ((b.drop keyLength).drop 8)) (domain.length + 1 + keyLength + 16 + 4)
    (getUnsignedInt ((b.drop keyLength).drop 16)) ((b.drop keyLength).drop 20)

def decode (body : List UInt8) : Except String Decoded := do
  onlyIf (body.length > maxEnvelope)
    (.error ("envelope exceeds " ++ toString maxEnvelope ++ " bytes"))
  onlyIf (body.length < domain.length + 1 + 1 + 16 + 4 + itemSize + signatureSize)
    (.error "envelope too short")
  onlyIf (body.take domain.length ≠ domain) (.error "unknown batch domain")
  decodeKey body ((body.drop domain.length).headD 0).toNat (body.drop domain.length).tail

/-! ## What it accepts -/

theorem keyByte_ascii {b : UInt8} (h : keyByte b = true) : b.toNat < 0x80 := by
  simp only [keyByte, Bool.or_eq_true, Bool.and_eq_true, decide_eq_true_eq, beq_iff_eq] at h
  omega

theorem keyChar_asciiChar (b : UInt8) : keyChar (asciiChar b) = keyByte b := by
  unfold asciiChar
  split
  · have heq : ∀ c : Char, (Char.ofNat b.toNat == c) = (b.toNat == c.toNat) := by
      intro c
      rw [Bool.eq_iff_iff, beq_iff_eq, beq_iff_eq, ← Char.toNat_inj, Go.toNat_ofNat_byte]
    rw [keyChar, heq, heq, heq, heq, asciiLetterOrDigit, Go.toNat_ofNat_byte, Bool.eq_iff_iff]
    simp only [keyByte, Bool.or_eq_true, Bool.and_eq_true, decide_eq_true_eq, beq_iff_eq,
      Char.reduceToNat]
    omega
  · rename_i hbeyond
    have hfalse : keyByte b = false := by
      cases hb : keyByte b with
      | false => rfl
      | true => exact absurd (keyByte_ascii hb) hbeyond
    rw [hfalse]
    decide

theorem validKeyId_iff {id : List UInt8} :
    validKeyId (asciiText id) = true ↔
      (1 ≤ id.length ∧ id.length ≤ 64) ∧ id.all keyByte = true := by
  have hall : (asciiText id).all keyChar = id.all keyByte := by
    rw [asciiText, all_map]
    exact congrArg id.all (funext keyChar_asciiChar)
  have hlen : (asciiText id).length = id.length := length_map _
  unfold validKeyId
  rw [hall]
  split
  · rename_i hrefused
    rw [← length_eq_zero_iff, hlen] at hrefused
    constructor
    · intro h
      cases h
    · rintro ⟨h, -⟩
      omega
  · rename_i hpassed
    rw [← length_eq_zero_iff, hlen] at hpassed
    constructor
    · exact fun h => ⟨by omega, h⟩
    · exact And.right

/-- The number a mode has in the plugin. -/
def modeNumber : HashMode → Int
  | .strict => hashStrict
  | .calls => hashCalls

def readItem (mode : HashMode) (b : List UInt8) : Approval where
  hashMode := modeNumber mode
  chainId := getLong (b.drop 16)
  txHash := getHash (b.drop 24)
  fingerprint := getHash (b.drop 56)
  reserved := getHash (b.drop 88)

theorem modeOf_eq_ok {text : List UInt8} {n : Int} :
    modeOf text = .ok n ↔ ∃ mode, HashMode.ofDomain text = some mode ∧ n = modeNumber mode := by
  unfold modeOf HashMode.ofDomain
  show (if text = HashMode.calls.domain then .ok hashCalls
    else if text = HashMode.strict.domain then .ok hashStrict
    else .error "unknown approval domain") = Except.ok n ↔ _
  split_ifs
  · simp [modeNumber, eq_comm]
  · simp [modeNumber, eq_comm]
  · simp

variable {b body : List UInt8} {count : Nat} {d : Decoded}

theorem parse_eq_ok {a : Approval} :
    Approval.parse b = .ok a ↔
      120 ≤ b.length ∧ ∃ mode, HashMode.ofDomain (b.take 16) = some mode ∧ a = readItem mode b := by
  have hsixteen : domainStrict.length = 16 := HashMode.length_domain .strict
  simp only [Approval.parse, onlyIf_error_bind_eq_ok, Nat.not_lt, hsixteen]
  refine and_congr_right fun _ => ?_
  simp only [Phase.bind_eq_ok, modeOf_eq_ok, Phase.pure_eq_ok]
  constructor
  · rintro ⟨_, ⟨mode, hmode, rfl⟩, rfl⟩
    exact ⟨mode, hmode, rfl⟩
  · rintro ⟨mode, hmode, rfl⟩
    exact ⟨_, ⟨mode, hmode, rfl⟩, rfl⟩

theorem readItem_take (mode : HashMode) (b : List UInt8) :
    readItem mode (b.take 120) = readItem mode b := by
  have hlong : getLong ((b.take 120).drop 16) = getLong (b.drop 16) := by
    rw [getLong, getLong, drop_take, take_take]
    rfl
  have hhash : ∀ start, start + 32 ≤ 120 →
      getHash ((b.take 120).drop start) = getHash (b.drop start) := by
    intro start hstart
    apply block_congr
    rw [drop_take, take_take, Nat.min_eq_left (by omega)]
  simp only [readItem, hlong, hhash 24 (by decide), hhash 56 (by decide), hhash 88 (by decide)]

/-- The approval a record is read as, its mode found from its text. -/
def readRecord (record : List UInt8) : Approval :=
  readItem ((HashMode.ofDomain (record.take 16)).getD .strict) record

theorem parseAll_eq_ok {approvals : List Approval} (hlen : count * 120 ≤ b.length) :
    parseAll count b = .ok approvals ↔
      (∀ record ∈ records 120 count b, (HashMode.ofDomain (record.take 16)).isSome = true) ∧
        approvals = (records 120 count b).map readRecord := by
  induction count generalizing b approvals with
  | zero =>
    constructor
    · intro h
      obtain rfl := Except.ok.inj h
      exact ⟨fun record hmem => absurd hmem not_mem_nil, rfl⟩
    · rintro ⟨-, rfl⟩
      rfl
  | succ count ih =>
    rw [Nat.succ_mul] at hlen
    have hrest : count * 120 ≤ (b.drop 120).length := by
      rw [length_drop]
      omega
    have htake : (b.take 120).take 16 = b.take 16 := by
      rw [take_take]
      rfl
    simp only [parseAll, Phase.bind_eq_ok, parse_eq_ok, itemSize, ih hrest, Phase.pure_eq_ok,
      records, forall_mem_cons, map_cons, htake]
    constructor
    · rintro ⟨_, ⟨-, mode, hmode, rfl⟩, _, ⟨hall, rfl⟩, rfl⟩
      refine ⟨⟨by rw [hmode]; rfl, hall⟩, ?_⟩
      rw [readRecord, htake, hmode, Option.getD_some, readItem_take]
    · rintro ⟨⟨hhead, hall⟩, rfl⟩
      obtain ⟨mode, hmode⟩ := Option.isSome_iff_exists.mp hhead
      refine ⟨_, ⟨by omega, mode, hmode, rfl⟩, _, ⟨hall, rfl⟩, ?_⟩
      rw [readRecord, htake, hmode, Option.getD_some, readItem_take]

/-- The fields of a well-formed envelope, found by position. -/
def Decoded.ofBody (body : List UInt8) : Decoded where
  keyId := asciiText (keyPart body)
  issuedAt := (issuedPart body).toInt64
  expiresAt := (expiresPart body).toInt64
  approvals := (recordParts body).map readRecord
  message := body.take (body.length - 64)
  signature := body.drop (body.length - 64)

theorem decodeItems_eq_ok {keyId : List Char} {issuedAt expiresAt : UInt64} {header : Nat}
    (hbody : body.length = header + b.length) :
    decodeItems body keyId issuedAt.toInt64 expiresAt.toInt64 header count b = .ok d ↔
      issuedAt < expiresAt ∧ (1 ≤ count ∧ count ≤ 32) ∧ b.length = count * 120 + 64 ∧
      (∀ record ∈ records 120 count b, (HashMode.ofDomain (record.take 16)).isSome = true) ∧
      d = ⟨keyId, issuedAt.toInt64, expiresAt.toInt64, (records 120 count b).map readRecord,
        body.take (body.length - 64), body.drop (body.length - 64)⟩ := by
  simp only [decodeItems, onlyIf_error_bind_eq_ok, UInt64.toUInt64_toInt64, UInt64.not_le, not_or,
    Nat.not_lt, ne_eq, not_not]
  refine and_congr_right fun _ => and_congr (by unfold maxApprovals; omega) ?_
  rw [hbody]
  unfold itemSize signatureSize
  constructor
  · rintro ⟨hlength, happrovals⟩
    have hlen : b.length = count * 120 + 64 := by omega
    have hmessage : header + b.length - 64 = header + count * 120 := by omega
    obtain ⟨approvals, hparsed, hd⟩ := Phase.bind_ok_cases happrovals
    obtain ⟨hall, rfl⟩ := (parseAll_eq_ok (by omega)).mp hparsed
    obtain rfl := Phase.pure_eq_ok.mp hd
    exact ⟨hlen, hall, by rw [hmessage]⟩
  · rintro ⟨hlen, hall, rfl⟩
    have hmessage : header + b.length - 64 = header + count * 120 := by omega
    refine ⟨by omega, ?_⟩
    rw [(parseAll_eq_ok (by omega)).mpr ⟨hall, rfl⟩, hmessage]
    rfl

theorem decodeKey_eq_ok (hkeyed : afterDomain body ≠ []) :
    decodeKey body (keyLength body) (afterLength body) = .ok d ↔
      (1 ≤ keyLength body ∧ keyLength body ≤ 64) ∧
      keyLength body + 20 ≤ (afterLength body).length ∧ (keyPart body).all keyByte = true ∧
      issuedPart body < expiresPart body ∧ (1 ≤ countPart body ∧ countPart body ≤ 32) ∧
      (payload body).length = countPart body * 120 + 64 ∧
      (∀ record ∈ recordParts body, (HashMode.ofDomain (record.take 16)).isSome = true) ∧
      d = Decoded.ofBody body := by
  have hnonempty : (afterDomain body).length ≠ 0 := fun h => hkeyed (length_eq_zero_iff.mp h)
  have hbody : keyLength body + 20 ≤ (afterLength body).length →
      body.length = domain.length + 1 + keyLength body + 16 + 4 + (payload body).length := by
    intro hlong
    rw [show domain.length = 22 from length_batchDomain]
    simp only [payload, afterKey, afterLength, afterDomain, length_drop,
      length_tail] at hlong hnonempty ⊢
    omega
  simp only [decodeKey, onlyIf_error_bind_eq_ok, not_or, Nat.not_lt, Bool.not_eq_false,
    validKeyId_iff, length_take]
  unfold maxKeyId
  constructor
  · rintro ⟨⟨hmin, hmax, hlong⟩, ⟨-, hkey⟩, hitems⟩
    exact ⟨⟨hmin, hmax⟩, hlong, hkey, (decodeItems_eq_ok (hbody hlong)).mp hitems⟩
  · rintro ⟨hk, hlong, hkey, hitems⟩
    exact ⟨by omega, ⟨by omega, hkey⟩, (decodeItems_eq_ok (hbody hlong)).mpr hitems⟩

/-- The decoder passes exactly the well-formed envelopes, and reads their parts. -/
theorem decode_eq_ok : decode body = .ok d ↔ WellFormed body ∧ d = Decoded.ofBody body := by
  have hdomain : domain.length = 22 := length_batchDomain
  have hmax : maxEnvelope = 4011 := by
    rw [maxEnvelope, hdomain]
    rfl
  simp only [decode, onlyIf_error_bind_eq_ok, Nat.not_lt, ne_eq, not_not]
  rw [hmax, hdomain]
  show _ ∧ _ ∧ _ ∧ decodeKey body (keyLength body) (afterLength body) = .ok d ↔ _
  constructor
  · rintro ⟨-, hshort, hstarts, hkey⟩
    have hkeyed : afterDomain body ≠ [] := by
      intro h
      have hlen := congrArg List.length h
      unfold itemSize signatureSize at hshort
      rw [afterDomain, length_drop, length_nil] at hlen
      omega
    obtain ⟨hk, hlong, hbytes, hbefore, hcount, hexact, hitems, hd⟩ :=
      (decodeKey_eq_ok hkeyed).mp hkey
    exact ⟨⟨hstarts, hkeyed, hk, hlong, hbytes, hbefore, hcount, hexact, hitems⟩, hd⟩
  · rintro ⟨h, hd⟩
    have hlength := h.length_eq
    have hk := h.key_length
    have hcount := h.count
    unfold itemSize signatureSize
    refine ⟨by omega, by omega, h.domain, (decodeKey_eq_ok h.keyed).mpr ?_⟩
    exact ⟨hk, h.long, h.key_bytes, h.issued_before, hcount, h.exact_length, h.items, hd⟩

end PrivacySuite.Besu
