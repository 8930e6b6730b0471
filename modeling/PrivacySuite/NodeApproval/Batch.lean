import PrivacySuite.Go.Json
import PrivacySuite.Go.Phase
import PrivacySuite.Go.Utf8
import PrivacySuite.NodeApproval.SignedBatch

/-!
# The batch signer

`Batch.message` of `internal/nodeapproval`: what it refuses, and that what it writes
is the message of a `SignedBatch` with the batch's own fields. `principal` is the
reserved field of an item, and is written as it is.
-/

namespace PrivacySuite.NodeApproval

open Codec Go Phase List

def hashStrict : UInt8 := 0

def hashCalls : UInt8 := 3

def validHashMode (mode : UInt8) : Bool := mode == hashStrict || mode == hashCalls

/-- An approval before it is signed. -/
structure Approval where
  hashMode : UInt8
  chainId : UInt64
  txHash : Hash
  fingerprint : Hash
  principal : Hash
  signature : String := ""

namespace Approval

variable (a : Approval)

def domain : List UInt8 :=
  if a.hashMode = hashCalls then ascii "OPS_APPROVAL_V3\x00" else ascii "OPS_APPROVAL_V1\x00"

def message : List UInt8 :=
  a.domain ++ u64Bytes a.chainId ++ a.txHash.toList ++ a.fingerprint.toList ++ a.principal.toList

end Approval

structure Batch where
  version : UInt32
  keyId : List UInt8
  issuedAt : UInt64
  expiresAt : UInt64
  approvals : List Approval
  signature : String := ""
  encoded : List UInt8 := []

def maxBatchApprovals : Nat := 32

def batchVersion : UInt32 := 2

/-- The runes `ValidKeyID` lets through. -/
def keyRune (r : Char) : Bool :=
  (r.toNat ≥ 'a'.toNat && r.toNat ≤ 'z'.toNat) || (r.toNat ≥ 'A'.toNat && r.toNat ≤ 'Z'.toNat) ||
    (r.toNat ≥ '0'.toNat && r.toNat ≤ '9'.toNat) || r == '.' || r == '_' || r == ':' || r == '-'

def validKeyID (id : List UInt8) : Bool :=
  if id.length = 0 ∨ id.length > 64 then false else (runes id).all keyRune

namespace Batch

variable (b : Batch)

def header : List UInt8 :=
  batchDomain ++ [UInt8.ofNat b.keyId.length] ++ b.keyId ++ u64Bytes b.issuedAt ++
    u64Bytes b.expiresAt ++ beBytes 4 b.approvals.length

/-- One turn of the loop over the approvals. -/
def appendApproval (message : List UInt8) (a : Approval) : Except String (List UInt8) := do
  onlyIf (validHashMode a.hashMode = false) (.error "unknown approval hash mode")
  onlyIf (a.signature ≠ "") (.error "batch members must not have individual signatures")
  return message ++ a.message

def message : Except String (List UInt8) := do
  onlyIf (b.version ≠ batchVersion ∨ b.approvals.length = 0 ∨
      b.approvals.length > maxBatchApprovals ∨ validKeyID b.keyId = false)
    (.error "unsupported or invalid approval batch")
  onlyIf (b.expiresAt ≤ b.issuedAt) (.error "approval batch must expire after it is issued")
  b.approvals.foldlM appendApproval b.header

end Batch

/-! ## Signing -/

/-- `Ed25519Signer`; `now` is its clock in Unix milliseconds. -/
structure Ed25519Signer (Key : Type) where
  keyId : List UInt8
  key : Option Key
  now : Int

/-- `time.Millisecond`, in nanoseconds. -/
def millisecond : Int := 1000000

section Sign

variable {Key : Type} (sign : Key → List UInt8 → List.Vector UInt8 64)

def sealBatch (key : Key) (b : Batch) : Except String Batch := do
  let message ← b.message
  return { b with
    signature := encodeHex (sign key message).toList
    encoded := message ++ (sign key message).toList }

/-- `SignBatch`; `ttl` is a duration in nanoseconds. -/
def signBatch (signer : Ed25519Signer Key) (approvals : List Approval) (ttl : Int) :
    Except String Batch :=
  match signer.key with
  | none => .error "approval signer has no key"
  | some key =>
      if ttl < millisecond then .error "approval TTL must be positive"
      else
        sealBatch sign key
          { version := batchVersion
            keyId := signer.keyId
            issuedAt := UInt64.ofInt signer.now
            expiresAt := UInt64.ofInt signer.now + UInt64.ofInt (ttl / millisecond)
            approvals := approvals }

end Sign

/-! ## Key ids -/

theorem keyRune_ascii (r : Char) (h : keyRune r = true) : r.toNat < 0x80 := by
  simp only [keyRune, Bool.or_eq_true, Bool.and_eq_true, decide_eq_true_eq, beq_iff_eq] at h
  rcases h with (((((⟨-, h⟩ | ⟨-, h⟩) | ⟨-, h⟩) | rfl) | rfl) | rfl) | rfl
  · exact Nat.lt_of_le_of_lt h (by decide)
  · exact Nat.lt_of_le_of_lt h (by decide)
  · exact Nat.lt_of_le_of_lt h (by decide)
  all_goals decide

theorem eq_iff_toNat_eq {r c : Char} : (r == c) = (r.toNat == c.toNat) := by
  rw [Bool.eq_iff_iff, beq_iff_eq, beq_iff_eq]
  exact Char.toNat_inj.symm

theorem keyRune_ofNat (b : UInt8) : keyRune (Char.ofNat b.toNat) = keyByte b := by
  simp only [keyRune, keyByte, eq_iff_toNat_eq, toNat_ofNat_byte]
  rfl

/-- `ValidKeyID` as a test of bytes: a rune that is not ASCII is refused, and so is
every byte of its encoding. -/
theorem validKeyID_iff {id : List UInt8} :
    validKeyID id = true ↔ (1 ≤ id.length ∧ id.length ≤ 64) ∧ id.all keyByte = true := by
  unfold validKeyID
  have hall : (runes id).all keyRune = id.all keyByte := by
    rw [all_runes keyRune_ascii]
    exact congrArg id.all (funext keyRune_ofNat)
  split
  · constructor
    · intro h
      cases h
    · rintro ⟨hlen, -⟩
      omega
  · rw [hall]
    constructor
    · intro h
      exact ⟨by omega, h⟩
    · exact And.right

/-! ## Messages -/

/-- What an approval is as an item; `hashMode` is one of the two known modes. -/
def Approval.item (a : Approval) : Item where
  mode := if a.hashMode = hashCalls then .calls else .strict
  chainId := a.chainId
  txHash := a.txHash
  fingerprint := a.fingerprint
  reserved := a.principal

theorem Approval.message_eq (a : Approval) : a.message = a.item.bytes := by
  have hdomain : a.domain = a.item.mode.domain := by
    unfold Approval.domain Approval.item
    split <;> rfl
  rw [Approval.message, hdomain, Item.bytes]
  simp only [append_assoc]
  rfl

def Approval.Encodable (a : Approval) : Prop := validHashMode a.hashMode = true ∧ a.signature = ""

theorem appendApproval_eq_ok {message message' : List UInt8} {a : Approval} :
    Batch.appendApproval message a = .ok message' ↔
      a.Encodable ∧ message' = message ++ a.message := by
  simp only [Batch.appendApproval, onlyIf_error_bind_eq_ok, Phase.pure_eq_ok, Approval.Encodable,
    Bool.not_eq_false, ne_eq, not_not, and_assoc]
  rw [eq_comm (a := message ++ a.message)]

theorem foldlM_appendApproval {approvals : List Approval} {message message' : List UInt8} :
    approvals.foldlM Batch.appendApproval message = .ok message' ↔
      (∀ a ∈ approvals, a.Encodable) ∧
        message' = message ++ approvals.flatMap Approval.message := by
  induction approvals generalizing message with
  | nil =>
    rw [foldlM_nil, Phase.pure_eq_ok, flatMap_nil, append_nil]
    simp [eq_comm]
  | cons a rest ih =>
    rw [foldlM_cons, Phase.bind_eq_ok]
    simp only [appendApproval_eq_ok, ih, forall_mem_cons, flatMap_cons]
    constructor
    · rintro ⟨_, ⟨ha, rfl⟩, hrest, rfl⟩
      exact ⟨⟨ha, hrest⟩, append_assoc _ _ _⟩
    · rintro ⟨⟨ha, hrest⟩, rfl⟩
      exact ⟨_, ⟨ha, rfl⟩, hrest, (append_assoc _ _ _).symm⟩

namespace Batch

variable {b : Batch} {m : List UInt8}

structure Encodable (b : Batch) : Prop where
  version : b.version = batchVersion
  count : 1 ≤ b.approvals.length ∧ b.approvals.length ≤ 32
  keyId : (1 ≤ b.keyId.length ∧ b.keyId.length ≤ 64) ∧ b.keyId.all keyByte = true
  issued_before : b.issuedAt < b.expiresAt
  approvals : ∀ a ∈ b.approvals, a.Encodable

theorem message_eq_ok :
    b.message = .ok m ↔ b.Encodable ∧ m = b.header ++ b.approvals.flatMap Approval.message := by
  simp only [message, onlyIf_error_bind_eq_ok, foldlM_appendApproval, not_or, not_not,
    Bool.not_eq_false, validKeyID_iff, UInt64.not_le]
  constructor
  · rintro ⟨⟨hversion, hzero, hmax, hkey⟩, htimes, happrovals, hm⟩
    unfold maxBatchApprovals at hmax
    exact ⟨⟨hversion, by omega, hkey, htimes, happrovals⟩, hm⟩
  · rintro ⟨h, hm⟩
    have hcount := h.count
    unfold maxBatchApprovals
    exact ⟨⟨h.version, by omega, by omega, h.keyId⟩, h.issued_before, h.approvals, hm⟩

def signed (b : Batch) (h : b.Encodable) (signature : List.Vector UInt8 64) : SignedBatch where
  keyId := b.keyId
  issuedAt := b.issuedAt
  expiresAt := b.expiresAt
  items := b.approvals.map Approval.item
  signature := signature
  keyId_length := h.keyId.1
  keyId_bytes := h.keyId.2
  issued_before := h.issued_before
  items_length := by
    rw [List.length_map]
    exact h.count

theorem message_signed (h : b.Encodable) (signature : List.Vector UInt8 64) :
    (b.signed h signature).message = b.header ++ b.approvals.flatMap Approval.message := by
  have hitems : (b.approvals.map Approval.item).flatMap Item.bytes =
      b.approvals.flatMap Approval.message := by
    rw [flatMap_map]
    exact congrArg (fun f => b.approvals.flatMap f) (funext fun a => a.message_eq.symm)
  simp only [SignedBatch.message, SignedBatch.times, signed, hitems, header, length_map,
    append_assoc, cons_append, nil_append]

end Batch

/-! ## Every signed batch is some batch's -/

def Item.approval (item : Item) : Approval where
  hashMode := item.mode.code
  chainId := item.chainId
  txHash := item.txHash
  fingerprint := item.fingerprint
  principal := item.reserved

theorem Item.item_approval (item : Item) : item.approval.item = item := by
  obtain ⟨mode, chainId, txHash, fingerprint, reserved⟩ := item
  cases mode <;> rfl

namespace SignedBatch

def batch (s : SignedBatch) : Batch where
  version := batchVersion
  keyId := s.keyId
  issuedAt := s.issuedAt
  expiresAt := s.expiresAt
  approvals := s.items.map Item.approval

theorem encodable_batch (s : SignedBatch) : s.batch.Encodable where
  version := rfl
  count := by
    rw [batch, length_map]
    exact s.items_length
  keyId := ⟨s.keyId_length, s.keyId_bytes⟩
  issued_before := s.issued_before
  approvals := by
    intro a ha
    obtain ⟨item, -, rfl⟩ := mem_map.mp ha
    refine ⟨?_, rfl⟩
    cases hmode : item.mode <;> simp [Item.approval, hmode] <;> decide

theorem signed_batch (s : SignedBatch) :
    s.batch.signed s.encodable_batch s.signature = s := by
  have hitems : (s.items.map Item.approval).map Approval.item = s.items := by
    rw [map_map]
    exact (map_congr_left fun item _ => item.item_approval).trans (map_id _)
  obtain ⟨keyId, issuedAt, expiresAt, items, signature, _, _, _, _⟩ := s
  simp only [Batch.signed, batch, hitems]

end SignedBatch

end PrivacySuite.NodeApproval
