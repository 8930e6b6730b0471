import PrivacySuite.Besu.ApprovalBatch
import PrivacySuite.Data.Index
import PrivacySuite.NodeApproval.Ranks

/-!
# The approval store of the Besu plugin

`ApprovalStore` of the Besu plugin: entries under transaction hashes, each in one of three
states that follow its transaction, with an index by expiry and two by issue time. Every
method is `synchronized`, so each call is one step; the clock is read by the call and its
readings are arguments here. The iteration order of a hash map or set is that of a list.

A `TreeSet` of slots is an ordered set of times and hashes. Times are Java longs and are
compared as signed words; the difference of two of them may wrap.
-/

namespace PrivacySuite.Besu.ApprovalStore

open Codec NodeApproval Data

/-- An approval as stored, with what its batch says of it. -/
structure Stored where
  approval : Approval
  keyId : List Char
  issuedAt : Int64
  expiresAt : Int64

def Stored.usableAt (s : Stored) (now : Int64) : Bool := now < s.expiresAt

def Stored.tx (s : Stored) : Hash := s.approval.txHash

/-- The states `POOLED`, `INCLUDED` and `ORPHAN` of an approval. -/
inductive Phase where
  | pooled
  | included
  | orphan
  deriving DecidableEq

structure Entry where
  stored : Stored
  state : Phase

/-! ## Slots -/

/-- An index position: a time, tie-broken by transaction hash. -/
abbrev Slot := Int ×ₗ Hash

def slot (time : Int64) (tx : Hash) : Slot := toLex (time.toInt, tx)

def Slot.time (k : Slot) : Int64 := Int64.ofInt (ofLex k).1

def Slot.tx (k : Slot) : Hash := (ofLex k).2

@[simp] theorem time_slot (time : Int64) (tx : Hash) : (slot time tx).time = time :=
  Int64.ofInt_toInt time

theorem slot_le {time time' : Int64} {tx tx' : Hash} (h : slot time tx ≤ slot time' tx') :
    time.toInt ≤ time'.toInt := by
  rw [slot, slot, Prod.Lex.le_iff] at h
  rcases h with hlt | ⟨heq, -⟩
  · exact le_of_lt hlt
  · exact le_of_eq heq

/-! ## The replacement order -/

/-- `String.getBytes(US_ASCII)`: a character that is not ASCII becomes a question mark. -/
def getBytes (text : List Char) : List UInt8 :=
  text.map fun c => if c.toNat < 0x80 then UInt8.ofNat c.toNat else 0x3F

def compareTo {K : Type} [LinearOrder K] (a b : K) : Ordering := cmp a b

/-- `Arrays.compareUnsigned` of two byte arrays. -/
def compareBytes (a b : List UInt8) : Ordering := compareTo (bytewise a) (bytewise b)

/-- `issued_at` unsigned, then key id and fingerprint bytewise. -/
def rank (a b : Stored) : Ordering :=
  (compareTo a.issuedAt.toUInt64.toNat b.issuedAt.toUInt64.toNat).then
    ((compareBytes (getBytes a.keyId) (getBytes b.keyId)).then
      (compareBytes a.approval.fingerprint.toList b.approval.fingerprint.toList))

/-! ## The state -/

structure State where
  entries : Table Hash Entry
  pooled : Table Hash Int64
  left : Table Hash Int64
  byExpiry : OrdSet Slot
  includedByIssue : OrdSet Slot
  orphansByIssue : OrdSet Slot

structure Store where
  capacity : Nat
  graceMs : Int64

namespace State

def init : State where
  entries := ∅
  pooled := ∅
  left := ∅
  byExpiry := ∅
  includedByIssue := ∅
  orphansByIssue := ∅

def entry (s : State) (tx : Hash) : Option Entry := s.entries.lookup tx

def index (s : State) (tx : Hash) (e : Entry) : State :=
  let s := { s with byExpiry := s.byExpiry.insert (slot e.stored.expiresAt tx) }
  match e.state with
  | .included => { s with includedByIssue := s.includedByIssue.insert (slot e.stored.issuedAt tx) }
  | .orphan => { s with orphansByIssue := s.orphansByIssue.insert (slot e.stored.issuedAt tx) }
  | .pooled => s

def unindex (s : State) (tx : Hash) (e : Entry) : State :=
  { s with
    byExpiry := s.byExpiry.erase (slot e.stored.expiresAt tx)
    includedByIssue := s.includedByIssue.erase (slot e.stored.issuedAt tx)
    orphansByIssue := s.orphansByIssue.erase (slot e.stored.issuedAt tx) }

def putEntry (s : State) (tx : Hash) (e : Entry) : State :=
  { s with entries := s.entries.insert tx e }

def upsert (s : State) (x : Stored) : State :=
  match s.entry x.tx with
  | some held =>
      let held' := { held with stored := x }
      ((s.unindex x.tx held).putEntry x.tx held').index x.tx held'
  | none =>
      let e := ⟨x, if (s.pooled.lookup x.tx).isSome then .pooled else .orphan⟩
      (s.putEntry x.tx e).index x.tx e

def remove (s : State) (tx : Hash) : State :=
  match s.entry tx with
  | none => s
  | some e => State.unindex { s with entries := s.entries.erase tx } tx e

def setState (s : State) (tx : Hash) (state : Phase) : State :=
  match s.entry tx with
  | none => s
  | some e =>
      if e.state ≠ state then
        let e' := { e with state := state }
        ((s.unindex tx e).putEntry tx e').index tx e'
      else s

/-! ## What may be evicted -/

/-- The loop over `byExpiry`. -/
def expiredVictims (s : State) (wanted : Nat) (now : Int64) (keep : List Hash) : List Hash :=
  pick wanted (fun k => decide (now < Slot.time k)) Slot.tx
    (fun chosen tx => keep.contains tx || chosen.contains tx) s.byExpiry.toList []

/-- The loop over an index by issue time. -/
def issueVictims (wanted : Nat) (now graceMs : Int64) (keep : List Hash) (out : List Hash)
    (index : OrdSet Slot) : List Hash :=
  pick wanted (fun k => decide (now - Slot.time k < graceMs)) Slot.tx
    (fun chosen tx => keep.contains tx || chosen.contains tx) index.toList out

/-- Up to `wanted` evictable approvals, in eviction order. -/
def victims (s : State) (wanted : Nat) (now graceMs : Int64) (keep : List Hash) : List Hash :=
  [s.includedByIssue, s.orphansByIssue].foldl (issueVictims wanted now graceMs keep)
    (s.expiredVictims wanted now keep)

end State

/-! ## The calls -/

/-- The greater of two for one transaction, in the place of the first. -/
def merge (offered : List Stored) (next : Stored) : List Stored :=
  if offered.any fun held => decide (held.tx = next.tx) then
    offered.map fun held => if held.tx = next.tx ∧ rank next held = .gt then next else held
  else offered ++ [next]

/-- What a batch offers, one approval for each transaction it names. -/
def offers (keyId : List Char) (issuedAt expiresAt : Int64) (approvals : List Approval) :
    List Stored :=
  approvals.foldl (fun offered a => merge offered ⟨a, keyId, issuedAt, expiresAt⟩) []

/-- What is offered that is not stored yet, is stored as expired, or outranks what is
stored. -/
def changes (s : State) (now : Int64) (offered : List Stored) : List Stored :=
  offered.filter fun x =>
    match s.entry x.tx with
    | none => true
    | some e => !e.stored.usableAt now || decide (rank x e.stored = .gt)

namespace Store

variable (st : Store)

/-- The answer and the state behind it. -/
def putAll (s : State) (now : Int64) (keyId : List Char) (issuedAt expiresAt : Int64)
    (approvals : List Approval) : Bool × State :=
  let offered := offers keyId issuedAt expiresAt approvals
  let changes := changes s now offered
  let added := (offered.filter fun x => (s.entry x.tx).isNone).length
  let shortfall := (added : Int) - (st.capacity - s.entries.entries.length)
  if 0 < shortfall then
    let victims := s.victims shortfall.toNat now st.graceMs (offered.map Stored.tx)
    if (victims.length : Int) < shortfall then (false, s)
    else (true, changes.foldl State.upsert (victims.foldl State.remove s))
  else (true, changes.foldl State.upsert s)

end Store

def get (s : State) (tx : Hash) : Option Stored := (s.entry tx).map Entry.stored

/-- The pool admitted this transaction. -/
def pooled (s : State) (tx : Hash) (now : Int64) : State :=
  State.setState { s with pooled := s.pooled.insert tx now, left := s.left.erase tx } tx .pooled

def State.leave (s : State) (tx : Hash) (now : Int64) : State :=
  { s with pooled := s.pooled.erase tx, left := s.left.insert tx now }

/-- The pool dropped or replaced this transaction. -/
def unpooled (s : State) (tx : Hash) (now : Int64) : State :=
  match (s.leave tx now).entry tx with
  | none => s.leave tx now
  | some e => if e.state = .pooled then (s.leave tx now).setState tx .orphan else s.leave tx now

/-- A canonical block included this transaction. -/
def included (s : State) (tx : Hash) (now : Int64) : State :=
  (s.leave tx now).setState tx .included

/-- Releases the approvals of transactions whose block is final. -/
def removeAll (s : State) (txs : List Hash) : State := txs.foldl State.remove s

/-- The loop of `evictExpired`; every turn takes a slot out of `byExpiry`. -/
def evictLoop (now : Int64) : Nat → State → Nat → State × Nat
  | 0, s, evicted => (s, evicted)
  | turns + 1, s, evicted =>
      match s.byExpiry.first with
      | none => (s, evicted)
      | some k =>
          if Slot.time k ≤ now then evictLoop now turns (s.remove (Slot.tx k)) (evicted + 1)
          else (s, evicted)

/-- Removes every approval whose `expires_at` has passed: the state and how many. -/
def evictExpired (s : State) (now : Int64) : State × Nat := evictLoop now s.byExpiry.size s 0

/-- The first loop of `reconcile`, at one transaction that was pooled. -/
def reconcileLeft (poolSnapshot : List Hash) (takenAt : Int64) (clock : Hash → Int64) (s : State)
    (tx : Hash) : State :=
  if !poolSnapshot.contains tx && (s.pooled.lookup tx).any fun t => decide (t < takenAt) then
    unpooled s tx (clock tx)
  else s

/-- The second loop of `reconcile`, at one transaction of the snapshot. -/
def reconcileJoined (takenAt : Int64) (s : State) (tx : Hash) : State :=
  if (s.left.lookup tx).any (fun leftAt => decide (takenAt ≤ leftAt)) ||
      (s.entry tx).any fun e => decide (e.state = .included) then s
  else
    State.setState
      { s with
        pooled := if (s.pooled.lookup tx).isSome then s.pooled else s.pooled.insert tx takenAt }
      tx .pooled

/-- Aligns the pooled set with a snapshot of the pool; `clock` is what the clock reads when
a transaction is taken off the pool. -/
def reconcile (s : State) (poolSnapshot : List Hash) (takenAt : Int64) (clock : Hash → Int64) :
    State :=
  let s := s.pooled.keys.foldl (reconcileLeft poolSnapshot takenAt clock) s
  let s := poolSnapshot.foldl (reconcileJoined takenAt) s
  { s with left := s.left.retain fun t => !decide (t < takenAt) }

end PrivacySuite.Besu.ApprovalStore
