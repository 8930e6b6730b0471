import PrivacySuite.Reth.Batch
import PrivacySuite.Reth.CallHash

/-!
# The gate of the Reth block producer

Two components share one cell. The filter over the pool's best transactions writes a
selection into it, the approval of the transaction with its sender and nonce
(`payload.rs`); the wrapped EVM takes the selection, executes, and lets the result
through only if the approval covers it (`transact_raw` of `execution.rs`).

The clock, the store, the inner EVM and the strict encoders are the environment: what
they say at each moment is part of the event. `transact_ok_only_if_approved` says of
every run when an execution is let through.
-/

namespace PrivacySuite.Reth

open Codec NodeApproval Phase

/-! ## The store -/

/-- The entry of a transaction hash; its timers and its pool state do not matter here. -/
structure Entry where
  approval : Option Approval

/-- `Store::usable`: stored and not expired. -/
def usable (entries : Hash → Option Entry) (hash : Hash) (nowMs : UInt64) : Option Approval := do
  let entry ← entries hash
  let approval ← entry.approval
  if nowMs < approval.expiresAt then some approval else none

def Approval.validMode (a : Approval) : Bool := a.hashMode == 0 || a.hashMode == 3

/-! ## The cell -/

structure Selected where
  approval : Approval
  sender : Address
  nonce : UInt64

/-- What the filter reads of a transaction of the pool. -/
structure PoolTx where
  hash : Hash
  sender : Address
  nonce : UInt64

/-- The closure of `filter_transactions`: whether the transaction is kept, and the cell
behind it. -/
def filterTransaction (entries : Hash → Option Entry) (tx : PoolTx) (nowMs : UInt64)
    (cell : Option Selected) : Bool × Option Selected :=
  match usable entries tx.hash nowMs with
  | none => (false, cell)
  | some approval => (true, some ⟨approval, tx.sender, tx.nonce⟩)

/-! ## The wrapped EVM -/

inductive ApprovalTxError where
  | ethereum (text : String)
  | denied (reason : String)
  deriving DecidableEq, Repr

/-- `EVMError`, over the errors of a transaction. -/
inductive EvmError (τ : Type) where
  | transaction (e : τ)
  | header (text : String)
  | database (text : String)
  | custom (text : String)
  | customAny (text : String)
  deriving DecidableEq, Repr

abbrev GateError := EvmError ApprovalTxError

def denied (reason : String) : GateError := .transaction (.denied reason)

def mapError : EvmError String → GateError
  | .transaction e => .transaction (.ethereum e)
  | .header text => .header text
  | .database text => .database text
  | .custom text => .custom text
  | .customAny text => .customAny text

/-- A provisional execution: its result, the call frames of the inspector, the code
hashes of the database behind it (`none` is an account that does not exist), and what
the two strict encoders give on it. -/
structure Execution (ρ : Type) where
  result : ρ
  calls : CallFrame
  basic : Address → Except String (Option Hash)
  direct : Except GateError (Except String Hash)
  reference : Except GateError (Except String Hash)

/-- `OPS_FINGERPRINT_MODE`: `legacy` and `verify` cannot both be set. -/
inductive FingerprintMode where
  | direct
  | legacy
  | verify
  deriving DecidableEq, Repr

structure Config where
  chainId : UInt64
  mode : FingerprintMode
  keccak256 : List UInt8 → Hash

structure TxEnv where
  caller : Address
  nonce : UInt64

/-- A call of `transact_raw`: the transaction, the readings of the clock at the three
checks, and what the inner EVM gives. -/
structure Transact (ρ : Type) where
  tx : TxEnv
  started : UInt64
  executed : UInt64
  returned : UInt64
  inner : Except (EvmError String) (Execution ρ)

section

variable {ρ : Type}

def requireUnexpired (clock expiresAt : UInt64) : Except GateError Unit :=
  onlyIf (clock ≥ expiresAt) (.error (denied "approval expired"))

/-- The lookup of the calls fingerprint: an account without code has the hash of no
code. -/
def lookupCode (basic : Address → Except String (Option Hash)) (address : Address) :
    Except String Hash :=
  match basic address with
  | .ok info =>
      .ok (if info.getD keccak256Empty = keccak256Empty ∨ info.getD keccak256Empty = zeroHash then
        keccak256Empty else info.getD keccak256Empty)
  | .error _ => .error "code lookup failed"

/-- The calls fingerprint of an execution. The encoder stops at the first lookup that
fails, and no other error has that text. -/
def callsFingerprint (cfg : Config) (ex : Execution ρ) : Except GateError (Except String Hash) :=
  match callBytes (lookupCode ex.basic) ex.calls with
  | .ok bytes => .ok (.ok (cfg.keccak256 bytes))
  | .error text =>
      if text = "code lookup failed" then .error (.database text) else .ok (.error text)

/-- Both failed, or both gave the same hash. -/
def agree (fast actual : Except String Hash) : Bool :=
  fast == actual || (!fast.isOk && !actual.isOk)

/-- The strict fingerprint of an execution. -/
def strictFingerprint (cfg : Config) (ex : Execution ρ) : Except GateError (Except String Hash) :=
  match cfg.mode with
  | .direct => ex.direct
  | .legacy => ex.reference
  | .verify => do
      let fast ← ex.direct
      let actual ← ex.reference
      onlyIf (agree fast actual = false) (.error (denied "differential fingerprint mismatch"))
      return actual

/-- The fingerprint of an execution in the mode of an approval. -/
def fingerprintOf (cfg : Config) (hashMode : UInt8) (ex : Execution ρ) :
    Except GateError (Except String Hash) :=
  if hashMode = 3 then callsFingerprint cfg ex else strictFingerprint cfg ex

def mismatchText (hashMode : UInt8) : String :=
  if hashMode = 3 then "call fingerprint mismatch" else "execution fingerprint mismatch"

/-- `transact_raw`, on what it takes from the cell. -/
def transactRaw (cfg : Config) (cell : Option Selected) (call : Transact ρ) :
    Except GateError ρ := do
  let selected ← orFail (okOr cell "missing selection") denied
  requireUnexpired call.started selected.approval.expiresAt
  onlyIf (selected.approval.validMode = false ∨ selected.approval.chainId ≠ cfg.chainId ∨
    selected.sender ≠ call.tx.caller ∨ selected.nonce ≠ call.tx.nonce)
    (.error (denied "selection mismatch"))
  let ex ← orFail call.inner mapError
  requireUnexpired call.executed selected.approval.expiresAt
  let actual ← fingerprintOf cfg selected.approval.hashMode ex
  onlyIf (actual ≠ .ok selected.approval.fingerprint)
    (.error (denied (mismatchText selected.approval.hashMode)))
  requireUnexpired call.returned selected.approval.expiresAt
  return ex.result

/-- What an approval has to say for an execution to be let through. -/
structure Covers (cfg : Config) (selected : Selected) (call : Transact ρ) (ex : Execution ρ) :
    Prop where
  executes : call.inner = .ok ex
  mode : selected.approval.hashMode = 0 ∨ selected.approval.hashMode = 3
  chain : selected.approval.chainId = cfg.chainId
  sender : selected.sender = call.tx.caller
  nonce : selected.nonce = call.tx.nonce
  started : call.started < selected.approval.expiresAt
  executed : call.executed < selected.approval.expiresAt
  returned : call.returned < selected.approval.expiresAt
  fingerprint : fingerprintOf cfg selected.approval.hashMode ex =
    .ok (.ok selected.approval.fingerprint)

theorem requireUnexpired_bind_eq_ok {clock expiresAt : UInt64} {α : Type}
    {f : Unit → Except GateError α} {a : α} :
    (requireUnexpired clock expiresAt >>= f) = .ok a ↔ clock < expiresAt ∧ f () = .ok a := by
  rw [requireUnexpired, onlyIf_error_bind_eq_ok, ge_iff_le, UInt64.not_le]

/-- An execution is let through exactly when the selection in the cell covers it. -/
theorem transactRaw_eq_ok {cfg : Config} {cell : Option Selected} {call : Transact ρ} {r : ρ} :
    transactRaw cfg cell call = .ok r ↔
      ∃ selected ex, cell = some selected ∧ Covers cfg selected call ex ∧ r = ex.result := by
  have hcell : ∀ selected, okOr cell "missing selection" = .ok selected ↔ cell = some selected := by
    intro selected
    cases cell with
    | none => exact ⟨fun h => (by cases h), fun h => (by cases h)⟩
    | some s => exact ⟨fun h => congrArg some (Except.ok.inj h),
        fun h => congrArg Except.ok (Option.some.inj h)⟩
  have hmode : ∀ a : Approval, a.validMode = true ↔ a.hashMode = 0 ∨ a.hashMode = 3 := by
    intro a
    rw [Approval.validMode, Bool.or_eq_true, beq_iff_eq, beq_iff_eq]
  unfold transactRaw
  simp only [↓requireUnexpired_bind_eq_ok, ↓onlyIf_error_bind_eq_ok, Phase.bind_eq_ok,
    Phase.pure_eq_ok, orFail_eq_ok, hcell]
  constructor
  · rintro ⟨selected, hsel, hstart, hmatch, ex, hinner, hexec, actual, hactual, hprint, hret, rfl⟩
    simp only [not_or, Bool.not_eq_false, not_not, hmode] at hmatch
    obtain ⟨hvalid, hchain, hsender, hnonce⟩ := hmatch
    rw [not_not] at hprint
    exact ⟨selected, ex, hsel, ⟨hinner, hvalid, hchain, hsender, hnonce, hstart, hexec, hret,
      hprint ▸ hactual⟩, rfl⟩
  · rintro ⟨selected, ex, hsel, hcovers, rfl⟩
    refine ⟨selected, hsel, hcovers.started, ?_, ex, hcovers.executes, hcovers.executed, _,
      hcovers.fingerprint, not_not.mpr rfl, hcovers.returned, rfl⟩
    simp only [not_or, Bool.not_eq_false, not_not, hmode]
    exact ⟨hcovers.mode, hcovers.chain, hcovers.sender, hcovers.nonce⟩

/-! ## Runs -/

/-- One evaluation of the filter, with the store and the clock it reads, or one call of
`transact_raw`. -/
inductive Event (ρ : Type) where
  | filter (entries : Hash → Option Entry) (tx : PoolTx) (nowMs : UInt64)
  | transact (call : Transact ρ)

/-- The cell behind an event. `transact_raw` takes what is in it, however it ends. -/
def cellAfter (cell : Option Selected) : Event ρ → Option Selected
  | .filter entries tx nowMs => (filterTransaction entries tx nowMs cell).2
  | .transact _ => none

/-- The cell before the event at position `i` of a run; it starts out empty. -/
def cellAt (events : List (Event ρ)) (i : Nat) : Option Selected :=
  (events.take i).foldl cellAfter none

/-- The call at position `i` of a run returns `Ok(r)`. -/
def LetsThrough (cfg : Config) (events : List (Event ρ)) (i : Nat) (call : Transact ρ) (r : ρ) :
    Prop :=
  events[i]? = some (.transact call) ∧ transactRaw cfg (cellAt events i) call = .ok r

/-- The filter evaluation at position `j` keeps its transaction, with this selection. -/
def SelectsAt (events : List (Event ρ)) (j : Nat) (selected : Selected) : Prop :=
  ∃ entries tx nowMs, events[j]? = some (.filter entries tx nowMs) ∧
    usable entries tx.hash nowMs = some selected.approval ∧
    selected.sender = tx.sender ∧ selected.nonce = tx.nonce

/-- The most recent selection before position `i` is the one at position `j`, and no call
has consumed it. -/
def Pending (events : List (Event ρ)) (i j : Nat) (selected : Selected) : Prop :=
  j < i ∧ SelectsAt events j selected ∧
    ∀ k, j < k → k < i → (∀ other, ¬ SelectsAt events k other) ∧
      ∀ call, events[k]? ≠ some (.transact call)

theorem filterTransaction_snd (entries : Hash → Option Entry) (tx : PoolTx) (nowMs : UInt64)
    (cell : Option Selected) :
    (filterTransaction entries tx nowMs cell).2 =
      match usable entries tx.hash nowMs with
      | none => cell
      | some approval => some ⟨approval, tx.sender, tx.nonce⟩ := by
  unfold filterTransaction
  split <;> simp_all

theorem pending_of_cellAt {events : List (Event ρ)} {i : Nat} {selected : Selected}
    (hi : i ≤ events.length) (h : cellAt events i = some selected) :
    ∃ j, Pending events i j selected := by
  induction i with
  | zero => cases h
  | succ i ih =>
    have hlt : i < events.length := hi
    have hget : events[i]? = some events[i] := List.getElem?_eq_getElem hlt
    rw [cellAt, List.take_add_one, hget, Option.toList_some, List.foldl_append, List.foldl_cons,
      List.foldl_nil, ← cellAt] at h
    -- a selection that was there before stays pending across an event that leaves it
    have hkeep : cellAt events i = some selected → (∀ other, ¬ SelectsAt events i other) →
        (∀ call, events[i]? ≠ some (.transact call)) → ∃ j, Pending events (i + 1) j selected := by
      intro hcell hno hcall
      obtain ⟨j, hji, hselects, hquiet⟩ := ih hlt.le hcell
      refine ⟨j, by omega, hselects, fun k hjk hki => ?_⟩
      rcases Nat.lt_succ_iff_lt_or_eq.mp hki with hk | rfl
      · exact hquiet k hjk hk
      · exact ⟨hno, hcall⟩
    cases hevent : events[i] with
    | transact call =>
      rw [hevent] at h
      cases h
    | filter entries tx nowMs =>
      rw [hevent, cellAfter, filterTransaction_snd] at h
      rw [hevent] at hget
      cases husable : usable entries tx.hash nowMs with
      | none =>
        rw [husable] at h
        apply hkeep h
        · rintro other ⟨entries', tx', nowMs', hget', husable', -, -⟩
          rw [hget, Option.some.injEq, Event.filter.injEq] at hget'
          obtain ⟨rfl, rfl, rfl⟩ := hget'
          rw [husable] at husable'
          cases husable'
        · intro call hcall
          rw [hget] at hcall
          cases hcall
      | some approval =>
        rw [husable] at h
        obtain rfl := Option.some.inj h
        refine ⟨i, by omega, ⟨entries, tx, nowMs, hget, husable, rfl, rfl⟩, fun k hk hk' => ?_⟩
        omega

/-- The producer gate. An execution is let through only if the most recent selection that
no call has consumed covers it, and no selection is there for two of them. -/
theorem transact_ok_only_if_approved (cfg : Config) (events : List (Event ρ)) :
    (∀ i call r, LetsThrough cfg events i call r → ∃ j selected ex,
      Pending events i j selected ∧ Covers cfg selected call ex ∧ r = ex.result) ∧
    (∀ i i' j call call' r r' selected selected', LetsThrough cfg events i call r →
      LetsThrough cfg events i' call' r' → Pending events i j selected →
      Pending events i' j selected' → i = i') := by
  refine ⟨?_, ?_⟩
  · rintro i call r ⟨hcall, hok⟩
    obtain ⟨selected, ex, hcell, hcovers, rfl⟩ := transactRaw_eq_ok.mp hok
    have hi : i ≤ events.length := (List.getElem?_eq_some_iff.mp hcall).1.le
    obtain ⟨j, hpending⟩ := pending_of_cellAt hi hcell
    exact ⟨j, selected, ex, hpending, hcovers, rfl⟩
  · rintro i i' j call call' r r' selected selected' ⟨hcall, -⟩ ⟨hcall', -⟩ ⟨hji, -, hquiet⟩
      ⟨hji', -, hquiet'⟩
    -- the earlier of the two calls would stand between the selection and the later one
    rcases Nat.lt_trichotomy i i' with hlt | rfl | hlt
    · exact absurd hcall ((hquiet' i hji hlt).2 call)
    · rfl
    · exact absurd hcall' ((hquiet i' hji' hlt).2 call')

/-- One transaction is approved in the strict mode, another in the calls mode. -/
def approvedTwo (hash : Hash) : Option Entry :=
  if hash = block 32 [1] then some ⟨some ⟨0, 1, block 32 [1], block 32 [7], [], 0, 10⟩⟩
  else if hash = block 32 [2] then some ⟨some ⟨3, 1, block 32 [2], zeroHash, [], 0, 10⟩⟩
  else none

/-- The execution of the sender's transaction with the nonce, a call with a call inside. -/
def sampleTransact (nonce : UInt64) (result : Nat) : Transact Nat where
  tx := ⟨block 20 [5], nonce⟩
  started := 8
  executed := 9
  returned := 9
  inner := .ok ⟨result, .node ⟨"CALL", block 20 [5], some (block 20 [6]), none, [1], none⟩
    [.node ⟨"STATICCALL", block 20 [6], some (block 20 [7]), none, [], none⟩ []],
    fun _ => .ok none, .ok (.ok (block 32 [7])), .ok (.error "")⟩

/-- Both transactions are selected and executed; what has no approval is passed over, and a
call without a selection of its own is refused. -/
def sampleRun : List (Event Nat) :=
  [.filter approvedTwo ⟨block 32 [1], block 20 [5], 3⟩ 8,
    .filter approvedTwo ⟨block 32 [9], block 20 [6], 1⟩ 8,
    .transact (sampleTransact 3 42), .transact (sampleTransact 3 43),
    .filter approvedTwo ⟨block 32 [2], block 20 [5], 4⟩ 8, .transact (sampleTransact 4 44)]

theorem sampleRun_approved :
    let cfg : Config := ⟨1, .direct, fun _ => zeroHash⟩
    LetsThrough cfg sampleRun 2 (sampleTransact 3 42) 42 ∧
      LetsThrough cfg sampleRun 5 (sampleTransact 4 44) 44 ∧
      (∃ j selected ex, Pending sampleRun 2 j selected ∧
        Covers cfg selected (sampleTransact 3 42) ex ∧ 42 = ex.result) ∧
      ∀ j selected selected', Pending sampleRun 2 j selected →
        ¬ Pending sampleRun 5 j selected' := by
  intro cfg
  obtain ⟨hcovered, honce⟩ := transact_ok_only_if_approved cfg sampleRun
  have hfirst : LetsThrough cfg sampleRun 2 (sampleTransact 3 42) 42 := ⟨rfl, by decide⟩
  have hsecond : LetsThrough cfg sampleRun 5 (sampleTransact 4 44) 44 := ⟨rfl, by decide +kernel⟩
  refine ⟨hfirst, hsecond, hcovered _ _ _ hfirst, ?_⟩
  intro j selected selected' hpending hpending'
  exact absurd (honce _ _ j _ _ _ _ _ _ hfirst hsecond hpending hpending') (by decide)

end

end PrivacySuite.Reth
