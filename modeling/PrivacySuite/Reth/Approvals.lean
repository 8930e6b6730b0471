import PrivacySuite.Data.Index
import PrivacySuite.NodeApproval.Ranks
import PrivacySuite.Reth.ProducerGate

/-!
# The approval store of the Reth node

`State` and `Store` of the Reth node's `approvals.rs`: entries under transaction hashes
with the indexes derived from them, and the calls that change them. A `Mutex` guards the
state, so each call is one step.

An `Instant` and a `Duration` are numbers of nanoseconds. The counters of `stats`, the hop
recorder and the wake-up of the sweeping task are left out: no call reads them.
-/

namespace PrivacySuite.Reth.Approvals

open Codec NodeApproval Data

abbrev Instant := Nat

abbrev Duration := Nat

def fromMillis (ms : Nat) : Duration := ms * 1000000

/-- `Duration::as_millis() as u64`. -/
def asMillis (d : Duration) : UInt64 := UInt64.ofNat (d / 1000000)

def recheck : Duration := 1000000000

def restartWindow : Duration := 60000000000

/-- A moment on both clocks the store uses. -/
structure Now where
  instant : Instant
  ms : UInt64

/-- When the Unix time `ms` arrives, as far as this pair of readings can tell. -/
def Now.instantOf (now : Now) (ms : UInt64) : Instant :=
  now.instant + fromMillis (ms.toNat - now.ms.toNat)

def rank (a : Approval) : Rank := rankOf a.issuedAt a.keyId a.fingerprint

/-! ## Entries and their keys -/

structure Entry where
  approval : Option Approval
  /-- Pool admission, while the transaction is pooled. -/
  pooled : Option Instant
  /-- The canonical block that included the transaction, until that block is final. -/
  included : Option UInt64
  deadline : Instant
  generation : UInt64

def includedClass : Nat := 0

def orphanClass : Nat := 1

/-- The class an approval may be evicted in; a pooled one has none. -/
def Entry.evictionClass (e : Entry) : Option Nat :=
  match e.pooled, e.included with
  | some _, _ => none
  | none, some _ => some includedClass
  | none, none => some orphanClass

/-- `(expires_at, hash)` of an approval. -/
def expiryOf (a : Approval) (hash : Hash) : Nat ×ₗ Hash := toLex (a.expiresAt.toNat, hash)

/-- `(class, issued_at, hash)` of an approval. -/
def evictableOf (e : Entry) (a : Approval) (hash : Hash) : Option (Nat ×ₗ Nat ×ₗ Hash) :=
  e.evictionClass.map fun c => toLex (c, toLex (a.issuedAt.toNat, hash))

def expiryHash (k : Nat ×ₗ Hash) : Hash := (ofLex k).2

def evictableHash (k : Nat ×ₗ Nat ×ₗ Hash) : Hash := (ofLex (ofLex k).2).2

/-- `(block, hash)` of an approval. -/
def includedOf (e : Entry) (hash : Hash) : Option (Nat ×ₗ Hash) :=
  e.included.map fun block => toLex (block.toNat, hash)

/-- `(deadline, generation, hash)` of an entry. -/
def timerOf (e : Entry) (hash : Hash) : Nat ×ₗ Nat ×ₗ Hash :=
  toLex (e.deadline, toLex (e.generation.toNat, hash))

structure State where
  entries : Table Hash Entry
  deadlines : OrdSet (Nat ×ₗ Nat ×ₗ Hash)
  generation : UInt64
  approvals : Nat
  byExpiry : OrdSet (Nat ×ₗ Hash)
  evictable : OrdSet (Nat ×ₗ Nat ×ₗ Hash)
  included : OrdSet (Nat ×ₗ Hash)
  finalized : UInt64
  firstStatus : Option Instant

namespace State

def init : State where
  entries := ∅
  deadlines := ∅
  generation := 0
  approvals := 0
  byExpiry := ∅
  evictable := ∅
  included := ∅
  finalized := 0
  firstStatus := none

def entry (s : State) (hash : Hash) : Option Entry := s.entries.lookup hash

def index (s : State) (hash : Hash) (add : Bool) : State :=
  match s.entry hash with
  | none => s
  | some e =>
      match e.approval with
      | none => s
      | some a =>
          if add then
            { s with
              approvals := s.approvals + 1
              byExpiry := s.byExpiry.insert (expiryOf a hash)
              evictable := s.evictable.extend (evictableOf e a hash)
              included := s.included.extend (includedOf e hash) }
          else
            { s with
              approvals := s.approvals - 1
              byExpiry := s.byExpiry.erase (expiryOf a hash)
              evictable := s.evictable.drop (evictableOf e a hash)
              included := s.included.drop (includedOf e hash) }

def insert (s : State) (hash : Hash) (entry : Entry) : State :=
  let e := { entry with generation := s.generation + 1 }
  State.index
    { s with
      generation := s.generation + 1
      deadlines := s.deadlines.insert (timerOf e hash)
      entries := s.entries.insert hash e }
    hash true

def remove (s : State) (hash : Hash) : State :=
  let s := s.index hash false
  match s.entry hash with
  | none => s
  | some e =>
      { s with
        entries := s.entries.erase hash
        deadlines := s.deadlines.erase (timerOf e hash) }

/-- Applies `change` to an entry, keeping the indexes and its timer in step. -/
def modify (s : State) (hash : Hash) (change : Entry → Entry) : State :=
  let s := s.index hash false
  match s.entry hash with
  | none => s
  | some e =>
      let timer := timerOf e hash
      let next := timerOf (change e) hash
      State.index
        { s with
          entries := s.entries.insert hash (change e)
          deadlines := if next ≠ timer then (s.deadlines.erase timer).insert next else s.deadlines }
        hash true

def hasApproval (s : State) (hash : Hash) : Bool := (s.entry hash).any fun e => e.approval.isSome

/-! ## What may be evicted -/

/-- The keys of a class: `(class, 0, B256::ZERO)..=(class, u64::MAX, B256::repeat_byte(0xff))`. -/
def classRange (s : State) (c : Nat) : List (Nat ×ₗ Nat ×ₗ Hash) :=
  s.evictable.range (toLex (c, toLex (0, repeatByte 0)))
    (toLex (c, toLex (2 ^ 64 - 1, repeatByte 0xff)))

/-- How long ago an approval was issued: `now.saturating_sub(issued)`. -/
def age (now : UInt64) (issuedAt : Nat) : Nat := now.toNat - issuedAt

/-- The loop over `by_expiry`. -/
def expiredVictims (s : State) (needed : Nat) (now : UInt64) (keep : List Hash) : List Hash :=
  pick needed (fun k => decide (now.toNat < (ofLex k).1)) expiryHash
    (fun _ hash => keep.contains hash) s.byExpiry.toList []

/-- The loop over one class of `evictable`. -/
def classVictims (s : State) (needed : Nat) (now grace : UInt64) (keep : List Hash)
    (victims : List Hash) (c : Nat) : List Hash :=
  pick needed (fun k => decide (age now (ofLex (ofLex k).2).1 < grace.toNat)) evictableHash
    (fun victims hash => keep.contains hash || victims.contains hash) (s.classRange c) victims

/-- Up to `needed` approvals to evict for a new batch. -/
def victims (s : State) (needed : Nat) (now grace : UInt64) (keep : List Hash) : List Hash :=
  [includedClass, orphanClass].foldl (s.classVictims needed now grace keep)
    (s.expiredVictims needed now keep)

end State

/-! ## The store -/

structure Store where
  wait : Duration
  capacity : Nat
  boot : Instant

namespace Store

variable (st : Store)

/-- When a transaction admitted at `arrived` stops waiting for its approval. -/
def waitEnd (firstStatus : Option Instant) (arrived : Instant) : Instant :=
  let cap := st.boot + restartWindow
  let start := match firstStatus with
    | none => cap
    | some status => min status cap
  max arrived start + st.wait

/-- The pool admitted, or re-announced, the transaction. -/
def seenAt (s : State) (hash : Hash) (arrived : Instant) (now : Now) : State :=
  match s.entry hash with
  | some e =>
      if e.pooled.isSome then s
      else
        match e.approval with
        | some a =>
            s.modify hash fun e => { e with
              pooled := some arrived
              deadline := min (now.instantOf a.expiresAt) (now.instant + recheck) }
        | none => s
  | none =>
      s.insert hash {
        approval := none
        pooled := some arrived
        included := none
        deadline := st.waitEnd s.firstStatus arrived
        generation := 0 }

/-- The approval the gate may use: the gate sees the approvals of the entries. -/
def usable (s : State) (hash : Hash) (nowMs : UInt64) : Option Approval :=
  Reth.usable (fun hash => (s.entry hash).map fun e => ⟨e.approval⟩) hash nowMs

def evict (s : State) (hash : Hash) : State :=
  match (s.entry hash).bind Entry.pooled with
  | some arrived =>
      let deadline := st.waitEnd s.firstStatus arrived
      s.modify hash fun e => { e with approval := none, deadline := deadline }
  | none => s.remove hash

def put (s : State) (a : Approval) (now : Now) : State :=
  let expiry := now.instantOf a.expiresAt
  match s.entry a.txHash with
  | none =>
      s.insert a.txHash {
        approval := some a
        pooled := none
        included := none
        deadline := expiry
        generation := 0 }
  | some e =>
      if e.approval.any (fun old => decide (rank a ≤ rank old)) then s
      else
        s.modify a.txHash fun e' => { e' with
          approval := some a
          deadline := if e.pooled.isSome then min expiry (now.instant + recheck) else expiry }

/-- The distinct hashes of a batch that hold no approval, in its order. -/
def fresh (s : State) (named : List Hash) : List Hash :=
  named.foldl (fun fresh hash =>
    if !s.hasApproval hash && !fresh.contains hash then fresh ++ [hash] else fresh) []

def grace : UInt64 := asMillis st.wait

/-- The answer and the state behind it. -/
def putBatch (s : State) (batch : List Approval) (now : Now) : Except Refusal Unit × State :=
  let named := batch.map Approval.txHash
  let fresh := fresh s named
  let free := st.capacity - s.approvals
  if free < fresh.length then
    let needed := fresh.length - free
    let victims := s.victims needed now.ms st.grace named
    if victims.length < needed then (.error .storeFull, s)
    else (.ok (), batch.foldl (fun s a => put s a now) (victims.foldl st.evict s))
  else (.ok (), batch.foldl (fun s a => put s a now) s)

/-- The transactions that wait for an approval, with their admission. -/
def waiting (s : State) : List (Hash × Instant) :=
  s.entries.entries.filterMap fun p =>
    if p.2.approval.isNone then p.2.pooled.map fun arrived => (p.1, arrived) else none

/-- The first `Status` call after boot starts the wait windows of the transactions pooled
before it. -/
def statusSeen (s : State) (now : Now) : State :=
  if s.firstStatus.isSome then s
  else
    let s := { s with firstStatus := some now.instant }
    (waiting s).foldl (fun s p =>
      let deadline := st.waitEnd s.firstStatus p.2
      s.modify p.1 fun e => { e with deadline := deadline }) s

def includeOne (block : UInt64) (now : Now) (s : State) (hash : Hash) : State :=
  match s.entry hash with
  | none => s
  | some e =>
      match e.approval with
      | none => s.remove hash
      | some a =>
          if block ≤ s.finalized then s.remove hash
          else
            s.modify hash fun e => { e with
              included := some block
              pooled := none
              deadline := now.instantOf a.expiresAt }

/-- A canonical block included these transactions. -/
def included (s : State) (block : UInt64) (hashes : List Hash) (now : Now) : State :=
  hashes.foldl (includeOne block now) s

def revertOne (block : UInt64) (s : State) (hash : Hash) : State :=
  if (s.entry hash).bind Entry.included = some block then
    s.modify hash fun e => { e with included := none }
  else s

/-- A block that included these transactions left the canonical chain. -/
def reverted (s : State) (block : UInt64) (hashes : List Hash) : State :=
  hashes.foldl (revertOne block) s

/-- The loop of `finalized`; every turn takes a key out of `included`. -/
def release : Nat → State → State
  | 0, s => s
  | turns + 1, s =>
      match s.included.first with
      | none => s
      | some key =>
          if s.finalized.toNat < (ofLex key).1 then s else release turns (s.remove (ofLex key).2)

def finalized (s : State) (block : UInt64) : State :=
  let s := { s with finalized := max s.finalized block }
  release s.included.size s

/-- What a due timer leads to: the state behind it, and the transaction passed to
`remove_tx`, if one is. -/
def due (s : State) (now : Now) (inPool : Hash → Bool) (timer : Nat ×ₗ Nat ×ₗ Hash) :
    State × Option Hash :=
  let hash := (ofLex (ofLex timer).2).2
  match s.entry hash with
  | none => ({ s with deadlines := s.deadlines.erase timer }, none)
  | some e =>
      match e.approval, e.pooled with
      | none, some arrived =>
          let finish := st.waitEnd s.firstStatus arrived
          if finish ≤ now.instant then (s.remove hash, some hash)
          else (s.modify hash fun e => { e with deadline := finish }, none)
      | some a, pooled =>
          if a.expiresAt ≤ now.ms then
            match pooled with
            | none => (s.remove hash, none)
            | some arrived =>
                let finish := st.waitEnd s.firstStatus arrived
                if finish ≤ now.instant then (s.remove hash, some hash)
                else (s.modify hash fun e => { e with approval := none, deadline := finish }, none)
          else
            let expiry := now.instantOf a.expiresAt
            if pooled.isSome ∧ e.included.isNone then
              if inPool hash then
                (s.modify hash fun e => { e with
                  deadline := min expiry (now.instant + recheck) }, none)
              else
                -- left the pool without inclusion
                (s.modify hash fun e => { e with pooled := none, deadline := expiry }, none)
            else
              -- an orphan or an included approval: nothing to do before it expires
              (s.modify hash fun e => { e with deadline := expiry }, none)
      | none, none => (s.remove hash, none)

/-- The loop of `sweep`, with the turns that are left; `dropped` is what went to
`remove_tx`. -/
def sweepLoop (now : Now) (inPool : Hash → Bool) : Nat → State → List Hash → State × List Hash
  | 0, s, dropped => (s, dropped)
  | limit + 1, s, dropped =>
      match s.deadlines.first with
      | none => (s, dropped)
      | some timer =>
          if now.instant < (ofLex timer).1 then (s, dropped)
          else
            let turn := st.due s now inPool timer
            sweepLoop now inPool limit turn.1 (dropped ++ turn.2.toList)

/-- Handles at most `limit` due timers: the state behind it, what went to `remove_tx`, and
the next deadline. -/
def sweep (s : State) (now : Now) (limit : Nat) (inPool : Hash → Bool) :
    State × List Hash × Option Instant :=
  let swept := st.sweepLoop now inPool limit s []
  (swept.1, swept.2, swept.1.deadlines.first.map fun timer => (ofLex timer).1)

end Store

end PrivacySuite.Reth.Approvals
