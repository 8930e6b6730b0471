import PrivacySuite.Go.Phase
import PrivacySuite.NodeApproval.SignedBatch

/-!
# The receiver of the Reth node

`Envelope::decode` and `Envelope::verify` of the Reth node's `batch.rs`: check 1 reads
the envelope, checks 2 to 7 turn it into approvals. A key id is kept as its bytes;
`std::str::from_utf8` cannot fail on the ASCII bytes `valid_key_id` lets through.
-/

namespace PrivacySuite.Reth

open Codec NodeApproval Phase List

inductive Refusal where
  | malformed (text : String)
  | untrustedKey
  | badSignature
  | wrongChain
  | ttlTooLong
  | issuedInFuture
  | expired
  | storeFull
  deriving DecidableEq, Repr

/-- One verified approval, with the batch fields the store and the gate need. -/
structure Approval where
  hashMode : UInt8
  chainId : UInt64
  txHash : Hash
  fingerprint : Hash
  keyId : List UInt8
  issuedAt : UInt64
  expiresAt : UInt64

def maxKeyId : Nat := 64

def maxApprovals : Nat := 32

def approvalLen : Nat := 120

def signatureLen : Nat := 64

def domain : List UInt8 := ascii "OPS_APPROVAL_BATCH_V2\x00"

def isAsciiAlphanumeric (b : UInt8) : Bool :=
  (0x30 ≤ b.toNat && b.toNat ≤ 0x39) || (0x41 ≤ b.toNat && b.toNat ≤ 0x5A) ||
    (0x61 ≤ b.toNat && b.toNat ≤ 0x7A)

def validKeyId (id : List UInt8) : Bool :=
  decide (1 ≤ id.length ∧ id.length ≤ maxKeyId) &&
    id.all fun b => isAsciiAlphanumeric b || [0x2E, 0x5F, 0x3A, 0x2D].contains b.toNat

def hashMode (text : List UInt8) : Option UInt8 :=
  if text = ascii "OPS_APPROVAL_V1\x00" then some 0
  else if text = ascii "OPS_APPROVAL_V3\x00" then some 3
  else none

/-- A decoded envelope that has passed check 1. -/
structure Envelope where
  keyId : List UInt8
  issuedAt : UInt64
  expiresAt : UInt64
  members : List UInt8
  message : List UInt8
  signature : List UInt8

/-- `as_chunks::<APPROVAL_LEN>().0`. -/
def asChunks (members : List UInt8) : List (List UInt8) :=
  records approvalLen (members.length / approvalLen) members

namespace Envelope

def stripDomain (bytes : List UInt8) : Except Refusal (List UInt8) :=
  if bytes.take domain.length = domain then .ok (bytes.drop domain.length)
  else .error (.malformed "unknown envelope version")

def splitFirst : List UInt8 → Except Refusal (UInt8 × List UInt8)
  | [] => .error (.malformed "truncated")
  | k :: rest => .ok (k, rest)

/-- The checks of the counted part: `rest` is what follows the count. -/
def decodeMembers (bytes keyId : List UInt8) (issuedAt expiresAt : UInt64) (count : Nat)
    (rest : List UInt8) : Except Refusal Envelope := do
  onlyIf (¬ (1 ≤ count ∧ count ≤ maxApprovals)) (.error (.malformed "approval count out of range"))
  onlyIf (rest.length ≠ count * approvalLen + signatureLen)
    (.error (.malformed "length does not match the approval count"))
  onlyIf (expiresAt ≤ issuedAt) (.error (.malformed "expires_at is not after issued_at"))
  onlyIf ((asChunks (rest.take (count * approvalLen))).any (fun m => (hashMode (m.take 16)).isNone))
    (.error (.malformed "unknown approval domain"))
  return {
    keyId := keyId
    issuedAt := issuedAt
    expiresAt := expiresAt
    members := rest.take (count * approvalLen)
    message := bytes.take (bytes.length - signatureLen)
    signature := rest.drop (count * approvalLen) }

/-- The checks of the key id: `rest` is what follows its length `k`. -/
def decodeKey (bytes : List UInt8) (k : Nat) (rest : List UInt8) : Except Refusal Envelope := do
  onlyIf (¬ (1 ≤ k ∧ k ≤ maxKeyId)) (.error (.malformed "key id length out of range"))
  onlyIf (rest.length < k + 20) (.error (.malformed "truncated"))
  onlyIf (validKeyId (rest.take k) = false) (.error (.malformed "invalid key id"))
  decodeMembers bytes (rest.take k) (u64Of ((rest.drop k).take 8))
    (u64Of (((rest.drop k).drop 8).take 8)) (beNat (((rest.drop k).drop 16).take 4))
    ((rest.drop k).drop 20)

/-- Check 1. -/
def decode (bytes : List UInt8) : Except Refusal Envelope := do
  let rest ← stripDomain bytes
  let (k, rest) ← splitFirst rest
  decodeKey bytes k.toNat rest

/-- `u64::from_be_bytes(m[16..24])`. -/
def chain (m : List UInt8) : UInt64 := u64Of ((m.drop 16).take 8)

/-- A slice of a member as a hash; members have their full length. -/
def hashAt (m : List UInt8) (start : Nat) : Hash := block 32 (m.drop start)

def approval (e : Envelope) (m : List UInt8) : Approval where
  hashMode := (hashMode (m.take 16)).getD 0
  chainId := chain m
  txHash := hashAt m 24
  fingerprint := hashAt m 56
  keyId := e.keyId
  issuedAt := e.issuedAt
  expiresAt := e.expiresAt

def approvals (e : Envelope) : List Approval := (asChunks e.members).map e.approval

end Envelope

/-! ## Checks 2 to 7 -/

/-- What the receiver accepts; `keys` finds a trusted key by its id. -/
structure Trust (Key : Type) where
  chain : UInt64
  keys : List UInt8 → Option Key
  maxTtlMs : UInt64

def maxClockAheadMs : UInt64 := 5000

def saturatingAdd (a b : UInt64) : UInt64 :=
  if a.toNat + b.toNat < 2 ^ 64 then a + b else UInt64.ofNat (2 ^ 64 - 1)

section Verify

variable {Key : Type} (verifyStrict : Key → List UInt8 → List UInt8 → Bool)

def trustedKey (trust : Trust Key) (keyId : List UInt8) : Except Refusal Key :=
  match trust.keys keyId with
  | some key => .ok key
  | none => .error .untrustedKey

def Envelope.verify (e : Envelope) (trust : Trust Key) (now : UInt64) :
    Except Refusal (List Approval) := do
  let key ← trustedKey trust e.keyId
  onlyIf (verifyStrict key e.message e.signature = false) (.error .badSignature)
  onlyIf ((asChunks e.members).any (fun m => chain m != trust.chain)) (.error .wrongChain)
  onlyIf (e.expiresAt - e.issuedAt > trust.maxTtlMs) (.error .ttlTooLong)
  onlyIf (e.issuedAt > saturatingAdd now maxClockAheadMs) (.error .issuedInFuture)
  onlyIf (e.expiresAt ≤ now) (.error .expired)
  return e.approvals

theorem verify_eq_ok {e : Envelope} {trust : Trust Key} {now : UInt64} {got : List Approval}
    (h : e.verify verifyStrict trust now = .ok got) : got = e.approvals := by
  obtain ⟨key, -, h⟩ := Phase.bind_ok_cases h
  simp only [onlyIf_error_bind_eq_ok, Phase.pure_eq_ok] at h
  obtain ⟨-, -, -, -, -, h⟩ := h
  exact h.symm

end Verify

/-! ## What check 1 accepts -/

theorem validKeyId_iff {id : List UInt8} :
    validKeyId id = true ↔ (1 ≤ id.length ∧ id.length ≤ 64) ∧ id.all keyByte = true := by
  have hbyte : ∀ b : UInt8,
      (isAsciiAlphanumeric b || [0x2E, 0x5F, 0x3A, 0x2D].contains b.toNat) = keyByte b := by
    intro b
    rw [Bool.eq_iff_iff]
    simp only [isAsciiAlphanumeric, keyByte, contains_cons, contains_nil, Bool.or_eq_true,
      Bool.and_eq_true, decide_eq_true_eq, beq_iff_eq, Bool.or_false]
    omega
  rw [validKeyId, Bool.and_eq_true, decide_eq_true_eq, funext hbyte]
  rfl

theorem hashMode_eq (text : List UInt8) :
    hashMode text = (HashMode.ofDomain text).map (·.code) := by
  show (if text = HashMode.strict.domain then some 0
    else if text = HashMode.calls.domain then some 3 else none) = _
  unfold HashMode.ofDomain
  by_cases hstrict : text = HashMode.strict.domain
  · have hcalls : text ≠ HashMode.calls.domain := by
      rw [hstrict]
      intro h
      cases HashMode.domain_injective h
    rw [if_pos hstrict, if_neg hcalls, if_pos hstrict]
    rfl
  · rw [if_neg hstrict, if_neg hstrict]
    split <;> rfl

namespace Envelope

/-- The fields of a well-formed envelope, found by position. -/
def ofBody (body : List UInt8) : Envelope where
  keyId := keyPart body
  issuedAt := issuedPart body
  expiresAt := expiresPart body
  members := (payload body).take (countPart body * 120)
  message := body.take (body.length - 64)
  signature := (payload body).drop (countPart body * 120)

theorem asChunks_take {count : Nat} {rest : List UInt8} (h : count * 120 ≤ rest.length) :
    asChunks (rest.take (count * 120)) = records 120 count rest := by
  have hlen : (rest.take (count * 120)).length = count * 120 := by
    rw [length_take]
    omega
  rw [asChunks, approvalLen, hlen, Nat.mul_div_cancel _ (by decide), records_take]

theorem decodeMembers_eq_ok {bytes keyId rest : List UInt8} {issuedAt expiresAt : UInt64}
    {count : Nat} {e : Envelope} :
    decodeMembers bytes keyId issuedAt expiresAt count rest = .ok e ↔
      (1 ≤ count ∧ count ≤ 32) ∧ rest.length = count * 120 + 64 ∧ issuedAt < expiresAt ∧
      (∀ record ∈ records 120 count rest, (HashMode.ofDomain (record.take 16)).isSome = true) ∧
      e = ⟨keyId, issuedAt, expiresAt, rest.take (count * 120), bytes.take (bytes.length - 64),
        rest.drop (count * 120)⟩ := by
  simp only [decodeMembers, onlyIf_error_bind_eq_ok, Phase.pure_eq_ok, not_not, ne_eq,
    UInt64.not_le]
  unfold maxApprovals approvalLen signatureLen
  refine and_congr_right fun _ => and_congr_right fun hlen => and_congr_right fun _ => ?_
  refine and_congr ?_ eq_comm
  rw [asChunks_take (by omega), any_eq_true, not_exists]
  refine forall_congr' fun record => ?_
  rw [not_and, hashMode_eq]
  refine imp_congr_right fun _ => ?_
  cases HashMode.ofDomain (record.take 16) <;> simp

theorem decodeKey_eq_ok {bytes rest : List UInt8} {k : Nat} {e : Envelope} :
    decodeKey bytes k rest = .ok e ↔
      (1 ≤ k ∧ k ≤ 64) ∧ k + 20 ≤ rest.length ∧ (rest.take k).all keyByte = true ∧
      decodeMembers bytes (rest.take k) (u64Of ((rest.drop k).take 8))
        (u64Of (((rest.drop k).drop 8).take 8)) (beNat (((rest.drop k).drop 16).take 4))
        ((rest.drop k).drop 20) = .ok e := by
  simp only [decodeKey, onlyIf_error_bind_eq_ok, not_not, Bool.not_eq_false, Nat.not_lt]
  unfold maxKeyId
  refine and_congr_right fun hk => and_congr_right fun hlen => and_congr_left fun _ => ?_
  have htake : (rest.take k).length = k := by
    rw [length_take]
    omega
  rw [validKeyId_iff, htake, and_iff_right hk]

/-- Check 1 passes exactly the well-formed envelopes, and reads their parts. -/
theorem decode_eq_ok {body : List UInt8} {e : Envelope} :
    decode body = .ok e ↔ WellFormed body ∧ e = ofBody body := by
  have hdomain : domain.length = 22 := length_batchDomain
  simp only [decode, Phase.bind_eq_ok, stripDomain, Prod.exists]
  constructor
  · rintro ⟨rest, hrest, k, rest', hsplit, hkey⟩
    split at hrest
    · rename_i hstarts
      obtain rfl := Except.ok.inj hrest
      rw [hdomain] at hstarts hsplit
      have hafter : afterDomain body = k :: rest' := by
        unfold afterDomain
        cases hdrop : body.drop 22 with
        | nil => rw [hdrop] at hsplit; cases hsplit
        | cons k' tail =>
          rw [hdrop] at hsplit
          obtain ⟨rfl, rfl⟩ := Prod.mk.inj (Except.ok.inj hsplit)
          rfl
      have hlength : keyLength body = k.toNat := by
        rw [keyLength, hafter, headD_cons]
      have hbehind : afterLength body = rest' := by
        rw [afterLength, hafter, tail_cons]
      rw [← hlength, ← hbehind, decodeKey_eq_ok, decodeMembers_eq_ok] at hkey
      obtain ⟨hk, hlong, hbytes, hcount, hexact, hbefore, hitems, he⟩ := hkey
      refine ⟨⟨hstarts, ?_, hk, hlong, hbytes, hbefore, hcount, hexact, hitems⟩, he⟩
      rw [hafter]
      exact cons_ne_nil _ _
    · cases hrest
  · rintro ⟨h, rfl⟩
    refine ⟨afterDomain body, ?_, UInt8.ofNat (keyLength body), afterLength body, ?_, ?_⟩
    · rw [hdomain, if_pos (show _ = domain from h.domain)]
      rfl
    · rw [h.afterDomain_eq]
      rfl
    · have hk := h.key_length
      rw [UInt8.toNat_ofNat_of_lt' (show keyLength body < 2 ^ 8 by omega), decodeKey_eq_ok,
        decodeMembers_eq_ok]
      exact ⟨hk, h.long, h.key_bytes, h.count, h.exact_length, h.issued_before, h.items, rfl⟩

end Envelope

end PrivacySuite.Reth
