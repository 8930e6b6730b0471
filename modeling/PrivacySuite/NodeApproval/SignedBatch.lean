import PrivacySuite.Codec.Bytes

/-!
# The signed envelope

What `OPS_APPROVAL_BATCH_V2` carries: the id of the signing key, when the batch was
issued and when it expires, one to thirty-two approval items, and a signature over
everything before it. `SignedBatch` holds exactly the values an envelope can carry,
and `SignedBatch.bytes` writes them out.

`WellFormed` is the receiver's reading of a string of bytes: its parts found by
position, each passing the check a receiver makes of it. The strings that pass are
the written envelopes and no others.
-/

namespace PrivacySuite.NodeApproval

open Codec List

abbrev Hash := List.Vector UInt8 32

abbrev Address := List.Vector UInt8 20

def ascii (text : String) : List UInt8 := text.toList.map fun c => UInt8.ofNat c.toNat

/-- What a fingerprint covers. -/
inductive HashMode where
  | strict
  | calls
  deriving DecidableEq, Repr

namespace HashMode

def code : HashMode → UInt8
  | strict => 0
  | calls => 3

def domain : HashMode → List UInt8
  | strict => ascii "OPS_APPROVAL_V1\x00"
  | calls => ascii "OPS_APPROVAL_V3\x00"

/-- The mode whose text this is. -/
def ofDomain (text : List UInt8) : Option HashMode :=
  if text = calls.domain then some calls
  else if text = strict.domain then some strict
  else none

@[simp] theorem length_domain (mode : HashMode) : mode.domain.length = 16 := by
  cases mode <;> decide

theorem domain_injective {mode mode' : HashMode} (h : mode.domain = mode'.domain) :
    mode = mode' := by
  revert h
  cases mode <;> cases mode' <;> decide

@[simp] theorem ofDomain_domain (mode : HashMode) : ofDomain mode.domain = some mode := by
  unfold ofDomain
  cases mode with
  | calls => rw [if_pos rfl]
  | strict =>
    rw [if_neg, if_pos rfl]
    intro h
    cases domain_injective h

theorem domain_of_ofDomain {text : List UInt8} {mode : HashMode} (h : ofDomain text = some mode) :
    mode.domain = text := by
  unfold ofDomain at h
  split_ifs at h with hcalls hstrict
  · obtain rfl := Option.some.inj h
    exact hcalls.symm
  · obtain rfl := Option.some.inj h
    exact hstrict.symm

end HashMode

/-! ## Items -/

structure Item where
  mode : HashMode
  chainId : UInt64
  txHash : Hash
  fingerprint : Hash
  reserved : Hash

namespace Item

def bytes (item : Item) : List UInt8 :=
  item.mode.domain ++ (u64Bytes item.chainId ++
    (item.txHash.toList ++ (item.fingerprint.toList ++ item.reserved.toList)))

/-- The item a record of 120 bytes is read as, its mode found from its text. -/
def ofBytes (mode : HashMode) (record : List UInt8) : Item where
  mode := mode
  chainId := u64Of ((record.drop 16).take 8)
  txHash := block 32 (record.drop 24)
  fingerprint := block 32 (record.drop 56)
  reserved := block 32 (record.drop 88)

@[simp] theorem length_bytes (item : Item) : item.bytes.length = 120 := by
  simp [bytes]

theorem take_bytes (item : Item) : item.bytes.take 16 = item.mode.domain :=
  take_left' item.mode.length_domain

theorem drop_bytes (item : Item) :
    item.bytes.drop 16 = u64Bytes item.chainId ++
      (item.txHash.toList ++ (item.fingerprint.toList ++ item.reserved.toList)) :=
  drop_left' item.mode.length_domain

theorem take_chainId (item : Item) : (item.bytes.drop 16).take 8 = u64Bytes item.chainId := by
  rw [drop_bytes, take_left' (length_u64Bytes _)]

theorem drop_chainId (item : Item) : item.bytes.drop 24 =
    item.txHash.toList ++ (item.fingerprint.toList ++ item.reserved.toList) := by
  rw [show 24 = 16 + 8 from rfl, ← drop_drop, drop_bytes, drop_left' (length_u64Bytes _)]

theorem take_txHash (item : Item) : (item.bytes.drop 24).take 32 = item.txHash.toList := by
  rw [drop_chainId, take_left' (List.Vector.toList_length _)]

theorem take_fingerprint (item : Item) :
    (item.bytes.drop 56).take 32 = item.fingerprint.toList := by
  rw [show 56 = 24 + 32 from rfl, ← drop_drop, drop_chainId,
    drop_left' (List.Vector.toList_length _), take_left' (List.Vector.toList_length _)]

theorem bytes_ofBytes {mode : HashMode} {record : List UInt8} (h : record.length = 120)
    (hmode : mode.domain = record.take 16) : (ofBytes mode record).bytes = record := by
  have hchain : ((record.drop 16).take 8).length = 8 := by
    rw [length_take, length_drop]
    omega
  have hblock : ∀ start, start + 32 ≤ 120 →
      (block 32 (record.drop start)).toList = (record.drop start).take 32 := by
    intro start hstart
    apply toList_block
    rw [length_drop]
    omega
  have hlast : (record.drop 88).take 32 = record.drop 88 := by
    apply take_of_length_le
    rw [length_drop]
    omega
  simp only [bytes, ofBytes, u64Bytes_u64Of hchain, hmode, hblock 24 (by decide),
    hblock 56 (by decide), hblock 88 (by decide), hlast]
  -- the parts are consecutive, so each joins the rest of the record behind it
  rw [show record.drop 88 = (record.drop 56).drop 32 by rw [drop_drop],
    take_append_drop,
    show record.drop 56 = (record.drop 24).drop 32 by rw [drop_drop],
    take_append_drop,
    show record.drop 24 = (record.drop 16).drop 8 by rw [drop_drop],
    take_append_drop, take_append_drop]

/-- A record is an item exactly when its text names a mode. -/
theorem exists_bytes_iff {record : List UInt8} (h : record.length = 120) :
    (∃ item : Item, item.bytes = record) ↔ (HashMode.ofDomain (record.take 16)).isSome = true := by
  constructor
  · rintro ⟨item, rfl⟩
    rw [take_bytes, HashMode.ofDomain_domain]
    rfl
  · intro hmode
    obtain ⟨mode, hmode⟩ := Option.isSome_iff_exists.mp hmode
    exact ⟨ofBytes mode record, bytes_ofBytes h (HashMode.domain_of_ofDomain hmode)⟩

end Item

/-! ## Envelopes -/

/-- The bytes a key id may use: `[A-Za-z0-9._:-]`. -/
def keyByte (b : UInt8) : Bool :=
  (0x61 ≤ b.toNat && b.toNat ≤ 0x7A) || (0x41 ≤ b.toNat && b.toNat ≤ 0x5A) ||
    (0x30 ≤ b.toNat && b.toNat ≤ 0x39) || b.toNat == 0x2E || b.toNat == 0x5F ||
    b.toNat == 0x3A || b.toNat == 0x2D

/-- A batch with its signature: only batches that may travel can be built. -/
structure SignedBatch where
  keyId : List UInt8
  issuedAt : UInt64
  expiresAt : UInt64
  items : List Item
  signature : List.Vector UInt8 64
  keyId_length : 1 ≤ keyId.length ∧ keyId.length ≤ 64
  keyId_bytes : keyId.all keyByte = true
  issued_before : issuedAt < expiresAt
  items_length : 1 ≤ items.length ∧ items.length ≤ 32

def batchDomain : List UInt8 := ascii "OPS_APPROVAL_BATCH_V2\x00"

@[simp] theorem length_batchDomain : batchDomain.length = 22 := by decide

namespace SignedBatch

variable (s : SignedBatch)

def times : List UInt8 :=
  u64Bytes s.issuedAt ++ (u64Bytes s.expiresAt ++ beBytes 4 s.items.length)

def message : List UInt8 :=
  batchDomain ++
    (UInt8.ofNat s.keyId.length :: (s.keyId ++ (s.times ++ s.items.flatMap Item.bytes)))

def bytes : List UInt8 := s.message ++ s.signature.toList

@[simp] theorem length_times : s.times.length = 20 := by simp [times]

theorem length_items : (s.items.flatMap Item.bytes).length = s.items.length * 120 :=
  length_flatMap_const Item.length_bytes s.items

theorem length_message : s.message.length = 43 + s.keyId.length + s.items.length * 120 := by
  rw [message, length_append, length_cons, length_append, length_append,
    length_items, length_times, length_batchDomain]
  omega

theorem length_bytes : s.bytes.length = 107 + s.keyId.length + s.items.length * 120 := by
  rw [bytes, length_append, length_message, List.Vector.toList_length]
  omega

end SignedBatch

/-! ## The parts of an envelope, by position -/

section Parts

variable (body : List UInt8)

def afterDomain : List UInt8 := body.drop 22

def keyLength : Nat := ((afterDomain body).headD 0).toNat

def afterLength : List UInt8 := (afterDomain body).tail

def keyPart : List UInt8 := (afterLength body).take (keyLength body)

def afterKey : List UInt8 := (afterLength body).drop (keyLength body)

def issuedPart : UInt64 := u64Of ((afterKey body).take 8)

def expiresPart : UInt64 := u64Of (((afterKey body).drop 8).take 8)

def countPart : Nat := beNat (((afterKey body).drop 16).take 4)

def payload : List UInt8 := (afterKey body).drop 20

def recordParts : List (List UInt8) := records 120 (countPart body) (payload body)

/-- Every part of the envelope is there and passes its check. -/
structure WellFormed : Prop where
  domain : body.take 22 = batchDomain
  keyed : afterDomain body ≠ []
  key_length : 1 ≤ keyLength body ∧ keyLength body ≤ 64
  long : keyLength body + 20 ≤ (afterLength body).length
  key_bytes : (keyPart body).all keyByte = true
  issued_before : issuedPart body < expiresPart body
  count : 1 ≤ countPart body ∧ countPart body ≤ 32
  exact_length : (payload body).length = countPart body * 120 + 64
  items : ∀ record ∈ recordParts body, (HashMode.ofDomain (record.take 16)).isSome = true

end Parts

namespace SignedBatch

variable (s : SignedBatch)

theorem afterDomain_bytes :
    afterDomain s.bytes = UInt8.ofNat s.keyId.length ::
      (s.keyId ++ (s.times ++ (s.items.flatMap Item.bytes ++ s.signature.toList))) := by
  unfold afterDomain bytes message
  rw [append_assoc, drop_left' length_batchDomain]
  simp only [cons_append, append_assoc]

@[simp] theorem keyLength_bytes : keyLength s.bytes = s.keyId.length := by
  have hlt : s.keyId.length < 256 := by
    have := s.keyId_length
    omega
  rw [keyLength, afterDomain_bytes]
  exact UInt8.toNat_ofNat_of_lt' hlt

theorem afterLength_bytes :
    afterLength s.bytes =
      s.keyId ++ (s.times ++ (s.items.flatMap Item.bytes ++ s.signature.toList)) := by
  rw [afterLength, afterDomain_bytes, tail_cons]

@[simp] theorem keyPart_bytes : keyPart s.bytes = s.keyId := by
  rw [keyPart, keyLength_bytes, afterLength_bytes, take_left]

theorem afterKey_bytes :
    afterKey s.bytes = s.times ++ (s.items.flatMap Item.bytes ++ s.signature.toList) := by
  rw [afterKey, keyLength_bytes, afterLength_bytes, drop_left]

@[simp] theorem issuedPart_bytes : issuedPart s.bytes = s.issuedAt := by
  rw [issuedPart, afterKey_bytes, times, append_assoc, take_left' (length_u64Bytes _),
    u64Of_u64Bytes]

theorem drop_times (rest : List UInt8) :
    (s.times ++ rest).drop 8 = u64Bytes s.expiresAt ++ (beBytes 4 s.items.length ++ rest) := by
  rw [times, append_assoc, drop_left' (length_u64Bytes _), append_assoc]

@[simp] theorem expiresPart_bytes : expiresPart s.bytes = s.expiresAt := by
  rw [expiresPart, afterKey_bytes, drop_times, take_left' (length_u64Bytes _), u64Of_u64Bytes]

@[simp] theorem countPart_bytes : countPart s.bytes = s.items.length := by
  have hlt : s.items.length < 256 ^ 4 := by
    have := s.items_length
    omega
  rw [countPart, afterKey_bytes, show 16 = 8 + 8 from rfl, ← drop_drop, drop_times,
    drop_left' (length_u64Bytes _), take_left' (length_beBytes _ _),
    beNat_beBytes_of_lt hlt]

theorem payload_bytes : payload s.bytes = s.items.flatMap Item.bytes ++ s.signature.toList := by
  rw [payload, afterKey_bytes, drop_left' s.length_times]

@[simp] theorem recordParts_bytes : recordParts s.bytes = s.items.map Item.bytes := by
  rw [recordParts, countPart_bytes, payload_bytes, records_flatMap Item.length_bytes]

theorem wellFormed_bytes : WellFormed s.bytes where
  domain := by
    rw [bytes, message, append_assoc, take_left' length_batchDomain]
  keyed := by
    rw [afterDomain_bytes]
    exact cons_ne_nil _ _
  key_length := by
    rw [keyLength_bytes]
    exact s.keyId_length
  long := by
    rw [keyLength_bytes, afterLength_bytes, length_append, length_append, length_times]
    omega
  key_bytes := by
    rw [keyPart_bytes]
    exact s.keyId_bytes
  issued_before := by
    rw [issuedPart_bytes, expiresPart_bytes]
    exact s.issued_before
  count := by
    rw [countPart_bytes]
    exact s.items_length
  exact_length := by
    rw [countPart_bytes, payload_bytes, length_append, length_items,
      List.Vector.toList_length]
  items := by
    rw [recordParts_bytes]
    intro record hmem
    obtain ⟨item, -, rfl⟩ := mem_map.mp hmem
    exact (Item.exists_bytes_iff item.length_bytes).mp ⟨item, rfl⟩

end SignedBatch

namespace WellFormed

variable {body : List UInt8}

theorem afterDomain_eq (h : WellFormed body) :
    afterDomain body = UInt8.ofNat (keyLength body) :: afterLength body := by
  have hkeyed := h.keyed
  rw [afterLength, keyLength]
  cases hafter : afterDomain body with
  | nil => exact absurd hafter hkeyed
  | cons k rest => rw [headD_cons, UInt8.ofNat_toNat, tail_cons]

theorem length_afterKey (h : WellFormed body) : 20 ≤ (afterKey body).length := by
  have hlong := h.long
  rw [afterKey, length_drop]
  omega

theorem length_keyPart (h : WellFormed body) :
    (keyPart body).length = keyLength body := by
  have hlong := h.long
  rw [keyPart, length_take]
  omega

/-- The twenty bytes behind the key id are the two times and the count. -/
theorem take_afterKey (h : WellFormed body) :
    u64Bytes (issuedPart body) ++ (u64Bytes (expiresPart body) ++ beBytes 4 (countPart body)) =
      (afterKey body).take 20 := by
  have hlong := h.length_afterKey
  have hissued : ((afterKey body).take 8).length = 8 := by
    rw [length_take]
    omega
  have hexpires : (((afterKey body).drop 8).take 8).length = 8 := by
    rw [length_take, length_drop]
    omega
  have hcount : (((afterKey body).drop 16).take 4).length = 4 := by
    rw [length_take, length_drop]
    omega
  have hspelled : beBytes 4 (countPart body) = ((afterKey body).drop 16).take 4 := by
    have := beBytes_beNat (((afterKey body).drop 16).take 4)
    rwa [hcount] at this
  rw [issuedPart, expiresPart, u64Bytes_u64Of hissued, u64Bytes_u64Of hexpires, hspelled,
    show (20 : Nat) = 8 + 12 from rfl, take_add, show (12 : Nat) = 8 + 4 from rfl,
    take_add, drop_drop]

theorem exists_bytes (h : WellFormed body) : ∃ s : SignedBatch, s.bytes = body := by
  have hitems : countPart body * 120 ≤ (payload body).length := by
    rw [h.exact_length]
    omega
  have hsignature : ((payload body).drop (countPart body * 120)).length = 64 := by
    rw [length_drop, h.exact_length]
    omega
  obtain ⟨items, hcount, hwritten⟩ := @exists_of_records Item 120 Item.bytes _ _ hitems
    fun record hmem hlen => (Item.exists_bytes_iff hlen).mpr (h.items record hmem)
  refine ⟨{ keyId := keyPart body, issuedAt := issuedPart body, expiresAt := expiresPart body,
            items := items, signature := ⟨_, hsignature⟩,
            keyId_length := by rw [h.length_keyPart]; exact h.key_length,
            keyId_bytes := h.key_bytes, issued_before := h.issued_before,
            items_length := by rw [hcount]; exact h.count }, ?_⟩
  -- from the back: items and signature are the payload, with the times they are
  -- what follows the key id, and so on to the domain
  simp only [SignedBatch.bytes, SignedBatch.message, SignedBatch.times, append_assoc,
    cons_append, List.Vector.toList_mk, hcount, hwritten]
  rw [take_append_drop, payload]
  have htimes := h.take_afterKey
  have hkey : keyPart body ++ afterKey body = afterLength body := take_append_drop _ _
  have hafter := h.afterDomain_eq
  have hbody : batchDomain ++ afterDomain body = body := by
    rw [← h.domain]
    exact take_append_drop _ _
  have hback : u64Bytes (issuedPart body) ++ (u64Bytes (expiresPart body) ++
      (beBytes 4 (countPart body) ++ (afterKey body).drop 20)) = afterKey body := by
    rw [← append_assoc (u64Bytes (expiresPart body)), ← append_assoc, htimes,
      take_append_drop]
  rw [hback, hkey, h.length_keyPart, ← hafter, hbody]

theorem length_eq (h : WellFormed body) :
    body.length = 107 + keyLength body + countPart body * 120 := by
  obtain ⟨s, rfl⟩ := h.exists_bytes
  rw [s.length_bytes, s.keyLength_bytes, s.countPart_bytes]

end WellFormed

end PrivacySuite.NodeApproval
