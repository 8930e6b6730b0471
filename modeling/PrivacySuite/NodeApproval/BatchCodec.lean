import PrivacySuite.Besu.ApprovalBatch
import PrivacySuite.NodeApproval.Batch
import PrivacySuite.Reth.Batch

/-!
# One envelope, three implementations

The signer writes an envelope and two receivers read it. `Reading` is what they
have to agree on. Every implementation is compared with `SignedBatch`: a signed
batch is some batch's message followed by a signature, and each receiver accepts
the written envelopes and nothing else, and reads back what was written.
-/

namespace PrivacySuite.NodeApproval

open Codec Phase List

/-- What a receiver learns of one approval: mode, chain, transaction and fingerprint. -/
abbrev Grant := Int × UInt64 × Hash × Hash

/-- What a receiver learns of a batch, and the bytes its signature covers. -/
@[ext] structure Reading where
  keyId : List Char
  issuedAt : UInt64
  expiresAt : UInt64
  grants : List Grant
  message : List UInt8

def keyText (id : List UInt8) : List Char := id.map fun b => Char.ofNat b.toNat

def Approval.grant (a : Approval) : Grant :=
  ((a.hashMode.toNat : Int), a.chainId, a.txHash, a.fingerprint)

def Batch.reading (b : Batch) (message : List UInt8) : Reading :=
  ⟨keyText b.keyId, b.issuedAt, b.expiresAt, b.approvals.map Approval.grant, message⟩

def Item.grant (item : Item) : Grant :=
  ((item.mode.code.toNat : Int), item.chainId, item.txHash, item.fingerprint)

def SignedBatch.reading (s : SignedBatch) : Reading :=
  ⟨keyText s.keyId, s.issuedAt, s.expiresAt, s.items.map Item.grant, s.message⟩

/-! ## Writing -/

theorem Approval.grant_item {a : Approval} (h : a.Encodable) : a.item.grant = a.grant := by
  have hmode := h.1
  simp only [validHashMode, Bool.or_eq_true, beq_iff_eq] at hmode
  rcases hmode with hstrict | hcalls
  · simp [Item.grant, Approval.item, Approval.grant, hstrict, hashStrict, hashCalls, HashMode.code]
  · simp [Item.grant, Approval.item, Approval.grant, hcalls, hashCalls, HashMode.code]

theorem Batch.reading_signed {b : Batch} (h : b.Encodable) (signature : List.Vector UInt8 64) :
    (b.signed h signature).reading = b.reading (b.signed h signature).message := by
  have hgrants : (b.approvals.map Approval.item).map Item.grant =
      b.approvals.map Approval.grant := by
    rw [map_map]
    exact map_congr_left fun a ha => Approval.grant_item (h.approvals a ha)
  simp only [SignedBatch.reading, Batch.reading, Batch.signed, hgrants]

theorem signBatch_eq_ok {Key : Type} {sign : Key → List UInt8 → List.Vector UInt8 64}
    {signer : Ed25519Signer Key} {approvals : List Approval} {ttl : Int} {b : Batch}
    (h : signBatch sign signer approvals ttl = .ok b) :
    ∃ (he : b.Encodable) (signature : List.Vector UInt8 64),
      b.message = .ok (b.signed he signature).message ∧
      b.encoded = (b.signed he signature).bytes := by
  unfold signBatch at h
  split at h
  · cases h
  · rename_i key hkey
    split at h
    · cases h
    · obtain ⟨m, hm, hb⟩ := Phase.bind_ok_cases h
      obtain ⟨he, hwritten⟩ := Batch.message_eq_ok.mp hm
      obtain rfl := Phase.pure_eq_ok.mp hb
      -- neither the signature nor the envelope is part of the message
      refine ⟨⟨he.version, he.count, he.keyId, he.issued_before, he.approvals⟩, sign key m, ?_, ?_⟩
      · rw [Batch.message_signed]
        exact Batch.message_eq_ok.mpr
          ⟨⟨he.version, he.count, he.keyId, he.issued_before, he.approvals⟩, rfl⟩
      · rw [SignedBatch.bytes, Batch.message_signed]
        show m ++ (sign key m).toList = _
        rw [hwritten]
        rfl

/-- The written envelopes are the messages of batches, each with 64 bytes behind it. -/
theorem exists_signedBatch_iff {bytes : List UInt8} :
    (∃ s : SignedBatch, s.bytes = bytes) ↔
      ∃ (b : Batch) (m : List UInt8) (signature : List.Vector UInt8 64),
        b.message = .ok m ∧ bytes = m ++ signature.toList := by
  constructor
  · rintro ⟨s, rfl⟩
    refine ⟨s.batch, s.message, s.signature, ?_, rfl⟩
    have hmessage := Batch.message_signed s.encodable_batch s.signature
    rw [s.signed_batch] at hmessage
    exact Batch.message_eq_ok.mpr ⟨s.encodable_batch, hmessage⟩
  · rintro ⟨b, m, signature, hm, rfl⟩
    obtain ⟨he, rfl⟩ := Batch.message_eq_ok.mp hm
    refine ⟨b.signed he signature, ?_⟩
    rw [SignedBatch.bytes, Batch.message_signed]
    rfl

/-! ## Reading -/

theorem SignedBatch.take_message (s : SignedBatch) :
    s.bytes.take (s.bytes.length - 64) = s.message := by
  have hlen : s.bytes.length - 64 = s.message.length := by
    rw [SignedBatch.bytes, length_append, List.Vector.toList_length, Nat.add_sub_cancel]
  rw [hlen, SignedBatch.bytes, take_left]

theorem SignedBatch.drop_message (s : SignedBatch) :
    s.bytes.drop (s.bytes.length - 64) = s.signature.toList := by
  have hlen : s.bytes.length - 64 = s.message.length := by
    rw [SignedBatch.bytes, length_append, List.Vector.toList_length, Nat.add_sub_cancel]
  rw [hlen, SignedBatch.bytes, drop_left]

end PrivacySuite.NodeApproval

namespace PrivacySuite.Reth

open Codec NodeApproval

def Approval.grant (a : Approval) : Grant :=
  ((a.hashMode.toNat : Int), a.chainId, a.txHash, a.fingerprint)

namespace Envelope

def reading (e : Envelope) : Reading :=
  ⟨keyText e.keyId, e.issuedAt, e.expiresAt, e.approvals.map Approval.grant, e.message⟩

theorem approval_bytes (e : Envelope) (item : Item) :
    e.approval item.bytes = ⟨item.mode.code, item.chainId, item.txHash, item.fingerprint,
      e.keyId, e.issuedAt, e.expiresAt⟩ := by
  have hmode : hashMode (item.bytes.take 16) = some item.mode.code := by
    rw [item.take_bytes, hashMode_eq, HashMode.ofDomain_domain, Option.map_some]
  have hchain : chain item.bytes = item.chainId := by
    rw [chain, item.take_chainId, u64Of_u64Bytes]
  simp only [approval, hmode, hchain, Option.getD_some, hashAt, block_eq item.take_txHash,
    block_eq item.take_fingerprint]

theorem approvals_ofBody (s : SignedBatch) :
    (ofBody s.bytes).approvals = s.items.map fun item =>
      ⟨item.mode.code, item.chainId, item.txHash, item.fingerprint, s.keyId, s.issuedAt,
        s.expiresAt⟩ := by
  have hlen : s.items.length * 120 ≤ (payload s.bytes).length := by
    rw [s.payload_bytes, List.length_append, s.length_items]
    omega
  have hmembers : asChunks (ofBody s.bytes).members = s.items.map Item.bytes := by
    show asChunks ((payload s.bytes).take (countPart s.bytes * 120)) = _
    rw [s.countPart_bytes, asChunks_take hlen, ← s.recordParts_bytes, recordParts,
      s.countPart_bytes]
  rw [approvals, hmembers, List.map_map]
  apply List.map_congr_left
  intro item _
  show (ofBody s.bytes).approval item.bytes = _
  rw [approval_bytes]
  simp only [ofBody, s.keyPart_bytes, s.issuedPart_bytes, s.expiresPart_bytes]

theorem reading_ofBody (s : SignedBatch) : (ofBody s.bytes).reading = s.reading := by
  have hgrants : (ofBody s.bytes).approvals.map Approval.grant = s.items.map Item.grant := by
    rw [approvals_ofBody, List.map_map]
    rfl
  apply Reading.ext
  · exact congrArg keyText s.keyPart_bytes
  · exact s.issuedPart_bytes
  · exact s.expiresPart_bytes
  · exact hgrants
  · exact s.take_message

theorem signature_ofBody (s : SignedBatch) : (ofBody s.bytes).signature = s.signature.toList := by
  show (payload s.bytes).drop (countPart s.bytes * 120) = _
  rw [s.payload_bytes, s.countPart_bytes, ← s.length_items, List.drop_left]

end Envelope

end PrivacySuite.Reth

namespace PrivacySuite.Besu

open Codec NodeApproval

def Approval.grant (a : Approval) : Grant :=
  (a.hashMode, a.chainId.toUInt64, a.txHash, a.fingerprint)

def Decoded.reading (d : Decoded) : Reading :=
  ⟨d.keyId, d.issuedAt.toUInt64, d.expiresAt.toUInt64, d.approvals.map Approval.grant, d.message⟩

theorem asciiText_eq_keyText {id : List UInt8} (h : id.all keyByte = true) :
    asciiText id = keyText id := by
  apply List.map_congr_left
  intro b hb
  exact if_pos (keyByte_ascii (List.all_eq_true.mp h b hb))

theorem grant_readRecord (item : Item) : (readRecord item.bytes).grant = item.grant := by
  have hmode : modeNumber item.mode = (item.mode.code.toNat : Int) := by
    cases item.mode <;> rfl
  have hchain : (getLong (item.bytes.drop 16)).toUInt64 = item.chainId := by
    rw [getLong, item.take_chainId, u64Of_u64Bytes, UInt64.toUInt64_toInt64]
  rw [readRecord, item.take_bytes, HashMode.ofDomain_domain, Option.getD_some]
  simp only [Approval.grant, readItem, Item.grant, hmode, hchain, getHash,
    block_eq item.take_txHash, block_eq item.take_fingerprint]

theorem Decoded.reading_ofBody (s : SignedBatch) :
    (Decoded.ofBody s.bytes).reading = s.reading := by
  have hkey : asciiText (keyPart s.bytes) = keyText s.keyId := by
    rw [s.keyPart_bytes, asciiText_eq_keyText s.keyId_bytes]
  have hgrants : ((recordParts s.bytes).map readRecord).map Approval.grant =
      s.items.map Item.grant := by
    rw [s.recordParts_bytes, List.map_map, List.map_map]
    exact List.map_congr_left fun item _ => grant_readRecord item
  apply Reading.ext
  · exact hkey
  · exact (UInt64.toUInt64_toInt64 _).trans s.issuedPart_bytes
  · exact (UInt64.toUInt64_toInt64 _).trans s.expiresPart_bytes
  · exact hgrants
  · exact s.take_message

end PrivacySuite.Besu

namespace PrivacySuite.NodeApproval

open Codec Phase

/-- Both receivers accept the bytes and read them as `reading`. -/
def BothRead (bytes : List UInt8) (reading : Reading) : Prop :=
  ∃ e d, Reth.Envelope.decode bytes = .ok e ∧ Besu.decode bytes = .ok d ∧
    e.reading = reading ∧ d.reading = reading ∧ e.signature = d.signature

def BothRefuse (bytes : List UInt8) : Prop :=
  (∀ e, Reth.Envelope.decode bytes ≠ .ok e) ∧ ∀ d, Besu.decode bytes ≠ .ok d

theorem bothRead_bytes (s : SignedBatch) : BothRead s.bytes s.reading := by
  refine ⟨Reth.Envelope.ofBody s.bytes, Besu.Decoded.ofBody s.bytes, ?_, ?_, ?_, ?_, ?_⟩
  · exact Reth.Envelope.decode_eq_ok.mpr ⟨s.wellFormed_bytes, rfl⟩
  · exact Besu.decode_eq_ok.mpr ⟨s.wellFormed_bytes, rfl⟩
  · exact Reth.Envelope.reading_ofBody s
  · exact Besu.Decoded.reading_ofBody s
  · rw [Reth.Envelope.signature_ofBody]
    exact s.drop_message.symm

theorem bothRefuse_of_not_wellFormed {bytes : List UInt8} (h : ¬ WellFormed bytes) :
    BothRefuse bytes :=
  ⟨fun _ he => h (Reth.Envelope.decode_eq_ok.mp he).1, fun _ hd => h (Besu.decode_eq_ok.mp hd).1⟩

/-- The signed batch codec. What the signer returns is read back by both receivers:
key id, times, approvals in order and the signed message. On any bytes at all the
receivers agree, and those they accept are the messages of batches, whatever their
reserved fields hold, followed by 64 bytes. Verification hands out the approvals
that were read. -/
theorem signed_batch_codec :
    (∀ {Key : Type} (sign : Key → List UInt8 → List.Vector UInt8 64) (signer : Ed25519Signer Key)
        (approvals : List Approval) (ttl : Int) (b : Batch),
      signBatch sign signer approvals ttl = .ok b →
        ∃ m, b.message = .ok m ∧ BothRead b.encoded (b.reading m)) ∧
    (∀ (b : Batch) (m : List UInt8) (signature : List.Vector UInt8 64),
      b.message = .ok m → BothRead (m ++ signature.toList) (b.reading m)) ∧
    (∀ bytes, (∃ reading, BothRead bytes reading) ∨ BothRefuse bytes) ∧
    (∀ bytes, (∃ reading, BothRead bytes reading) ↔
      ∃ (b : Batch) (m : List UInt8) (signature : List.Vector UInt8 64),
        b.message = .ok m ∧ bytes = m ++ signature.toList) ∧
    (∀ {Key : Type} (verifyStrict : Key → List UInt8 → List UInt8 → Bool) (e : Reth.Envelope)
        (trust : Reth.Trust Key) (now : UInt64) (got : List Reth.Approval),
      e.verify verifyStrict trust now = .ok got → got = e.approvals) := by
  refine ⟨?_, ?_, ?_, ?_, ?_⟩
  · intro Key sign signer approvals ttl b h
    obtain ⟨he, signature, hmessage, hencoded⟩ := signBatch_eq_ok h
    refine ⟨_, hmessage, ?_⟩
    rw [hencoded, ← Batch.reading_signed]
    exact bothRead_bytes _
  · intro b m signature hm
    obtain ⟨he, rfl⟩ := Batch.message_eq_ok.mp hm
    rw [← Batch.message_signed he signature, ← Batch.reading_signed]
    exact bothRead_bytes (b.signed he signature)
  · intro bytes
    by_cases h : WellFormed bytes
    · obtain ⟨s, rfl⟩ := h.exists_bytes
      exact .inl ⟨_, bothRead_bytes s⟩
    · exact .inr (bothRefuse_of_not_wellFormed h)
  · intro bytes
    rw [← exists_signedBatch_iff]
    constructor
    · rintro ⟨reading, e, d, he, -⟩
      exact (Reth.Envelope.decode_eq_ok.mp he).1.exists_bytes
    · rintro ⟨s, rfl⟩
      exact ⟨_, bothRead_bytes s⟩
  · intro Key verifyStrict e trust now got h
    exact Reth.verify_eq_ok verifyStrict h

/-- Two approvals in the two modes, signed by the first bytes of their message. -/
def sampleBatch : Except String Batch :=
  signBatch (fun (_ : Unit) m => block 64 m) ⟨ascii "ops-2026", some (), 1000⟩
    [⟨hashCalls, 1, block 32 [1], block 32 [2], block 32 [], ""⟩,
      ⟨hashStrict, 1, block 32 [3], block 32 [4], block 32 [], ""⟩] (5000 * millisecond)

/-- The batch is read by both receivers, and a node that trusts the key gets its approvals. -/
theorem sampleBatch_delivered :
    ∃ b m e got, sampleBatch = .ok b ∧ b.message = .ok m ∧ BothRead b.encoded (b.reading m) ∧
      Reth.Envelope.decode b.encoded = .ok e ∧
      e.verify (fun (_ : Unit) m signature => signature == (block 64 m).toList)
        ⟨1, fun keyId => if keyId = ascii "ops-2026" then some () else none, 5000⟩ 1500 = .ok got ∧
      got = e.approvals ∧ got.map (·.txHash) = [block 32 [1], block 32 [3]] := by
  obtain ⟨hsigned, -, -, -, hverified⟩ := signed_batch_codec
  obtain ⟨b, hb, hread⟩ := exists_ok_of_any (x := sampleBatch)
    (q := fun b => (Reth.Envelope.decode b.encoded).toOption.any fun e =>
      (e.verify (fun (_ : Unit) m signature => signature == (block 64 m).toList)
        ⟨1, fun keyId => if keyId = ascii "ops-2026" then some () else none, 5000⟩
          1500).toOption.any
          fun got => got.map (·.txHash) == [block 32 [1], block 32 [3]]) (by decide +kernel)
  obtain ⟨m, hm, hboth⟩ := hsigned _ _ _ _ b hb
  obtain ⟨e, he, htrusted⟩ := exists_ok_of_any hread
  obtain ⟨got, hgot, hhashes⟩ := exists_ok_of_any htrusted
  exact ⟨b, m, e, got, hb, hm, hboth, he, hgot, hverified _ e _ _ got hgot, beq_iff_eq.mp hhashes⟩

end PrivacySuite.NodeApproval
