import PrivacySuite.Besu.ApprovalBatch
import PrivacySuite.Besu.ApprovalTracer
import PrivacySuite.Go.Phase

/-!
# The gate of the Besu block producer

`ApprovalSelector`: before a candidate is processed its approval is looked up and the
tracer is reset; afterwards the approval is looked up again and has to cover what the
tracer saw. Between the two the tracer gets its callbacks, and the store may change.

Only the decision is modelled. The strict fingerprint of what was seen, the wait window
of the candidate and the hash function are parameters.
-/

namespace PrivacySuite.Besu

open Codec Data NodeApproval Phase Tracer List

/-- `ApprovalStore.Stored`, without what the replacement rule reads. -/
structure Stored where
  approval : Approval
  expiresAt : Int64

abbrev Store := Hash → Option Stored

def Stored.usableAt (s : Stored) (now : Int64) : Bool := decide (now < s.expiresAt)

def validMode (mode : Int) : Bool := mode == hashStrict || mode == hashCalls

/-- A result other than `SELECTED`. -/
inductive Rejection where
  | invalid (code : String)
  | invalidTransient (code : String)
  deriving DecidableEq, Repr

def pending : Rejection := .invalidTransient "OPS_APPROVAL_PENDING"

def timeout : Rejection := .invalid "OPS_APPROVAL_TIMEOUT"

def mismatch : Rejection := .invalid "OPS_APPROVAL_MISMATCH"

def unsupported : Rejection := .invalid "OPS_APPROVAL_UNSUPPORTED"

/-- What the decision on one candidate depends on. -/
structure Candidate where
  chainId : Int64
  txHash : Hash
  timedOut : Int64 → Bool
  keccak256 : List UInt8 → Hash
  strict : List CallRecord → Except String Hash

/-- The fields the selector keeps from one call to the next. -/
structure Selector where
  tracer : Tracer := {}
  selectedExpiresAt : Int64 := Int64.minValue

namespace Candidate

variable (c : Candidate)

def absent (now : Int64) : Rejection := if c.timedOut now then timeout else pending

/-- `evaluateTransactionPreProcessing`; `.ok ()` is `SELECTED`. -/
def preProcessing (store : Store) (now : Int64) : Except Rejection Unit × Selector :=
  match store c.txHash with
  | none => (.error (c.absent now), {})
  | some stored =>
      if stored.usableAt now = false then (.error (c.absent now), {})
      else if stored.approval.chainId ≠ c.chainId ∨ validMode stored.approval.hashMode = false then
        (.error unsupported, { selectedExpiresAt := stored.expiresAt })
      else (.ok (), { selectedExpiresAt := stored.expiresAt })

def usableNow (sel : Selector) (store : Store) (now : Int64) : Except Rejection Stored :=
  match store c.txHash with
  | some stored => if stored.usableAt now then .ok stored else .error (c.absent now)
  | none =>
      if sel.selectedExpiresAt ≠ Int64.minValue ∧ now ≥ sel.selectedExpiresAt then
        .error (c.absent now)
      else .error mismatch

/-- Calls V3, unless the execution created or destroyed a contract. -/
def requiredMode (seen : Tracer) : Int :=
  if seen.hasLifecycleRecord then hashStrict else hashCalls

def fingerprint (seen : Tracer) : Except String Hash :=
  if requiredMode seen = hashStrict then c.strict seen.records
  else (callBytes seen.records).map c.keccak256

/-- `evaluateTransactionPostProcessing`; `invalid` is `result.isInvalid()`. -/
def postProcessing (sel : Selector) (store : Store) (now : Int64) (invalid : Bool) :
    Except Rejection Unit := do
  onlyIf (invalid = true) (.error mismatch)
  let stored ← c.usableNow sel store now
  onlyIf (stored.approval.chainId ≠ c.chainId ∨ validMode stored.approval.hashMode = false)
    (.error unsupported)
  onlyIf (sel.tracer.txHash ≠ some c.txHash) (.error mismatch)
  onlyIf (sel.tracer.error.isSome = true) (.error mismatch)
  onlyIf (sel.tracer.complete = false) (.error mismatch)
  onlyIf (stored.approval.hashMode ≠ requiredMode sel.tracer) (.error unsupported)
  let actual ← orFail (c.fingerprint sel.tracer) (fun _ => unsupported)
  onlyIf (actual ≠ stored.approval.fingerprint) (.error mismatch)

end Candidate

def Selector.observe (sel : Selector) (callbacks : List Callback) : Selector :=
  { sel with tracer := sel.tracer.run callbacks }

/-! ## The decision -/

/-- What the approval and the tracer say when a candidate is selected. -/
structure Accepts (c : Candidate) (stored : Stored) (now : Int64) (seen : Tracer) : Prop where
  unexpired : now < stored.expiresAt
  chain : stored.approval.chainId = c.chainId
  observed : seen.txHash = some c.txHash
  noError : seen.error = none
  complete : seen.complete = true
  mode : stored.approval.hashMode = Candidate.requiredMode seen
  fingerprint : c.fingerprint seen = .ok stored.approval.fingerprint

variable {c : Candidate} {sel : Selector} {store : Store} {now : Int64} {t : Tracer} {txHash : Hash}

theorem usableNow_eq_ok {stored : Stored} :
    c.usableNow sel store now = .ok stored ↔ store c.txHash = some stored ∧ now <
      stored.expiresAt := by
  unfold Candidate.usableNow
  split
  · rename_i found hfound
    rw [hfound, Option.some.injEq]
    split
    · rename_i husable
      rw [Except.ok.injEq]
      constructor
      · rintro rfl
        exact ⟨rfl, of_decide_eq_true husable⟩
      · exact And.left
    · rename_i hnot
      constructor
      · intro h
        cases h
      · rintro ⟨rfl, hlt⟩
        exact absurd (decide_eq_true hlt) hnot
  · rename_i hnone
    rw [hnone]
    constructor
    · intro h
      split at h <;> cases h
    · rintro ⟨h, -⟩
      cases h

theorem accepts_of_postProcessing {invalid : Bool}
    (h : c.postProcessing sel store now invalid = .ok ()) :
    ∃ stored, store c.txHash = some stored ∧ Accepts c stored now sel.tracer := by
  unfold Candidate.postProcessing at h
  rw [onlyIf_error_bind_eq_ok] at h
  obtain ⟨-, h⟩ := h
  obtain ⟨stored, hstored, h⟩ := bind_ok_cases h
  obtain ⟨hstored, hunexpired⟩ := usableNow_eq_ok.mp hstored
  simp only [onlyIf_error_bind_eq_ok] at h
  obtain ⟨hchain, hhash, herror, hcomplete, hmode, h⟩ := h
  obtain ⟨actual, hactual, h⟩ := bind_ok_cases h
  have hequal : actual = stored.approval.fingerprint := by
    by_contra hne
    rw [onlyIf, if_pos hne] at h
    cases h
  rw [not_or, not_not] at hchain
  refine ⟨stored, hstored, hunexpired, hchain.1, not_not.mp hhash, ?_, ?_, not_not.mp hmode, ?_⟩
  · simpa using herror
  · simpa using hcomplete
  · rw [← hequal]
    exact orFail_ok hactual

/-! ## The callbacks since the last start -/

theorem txHash_of_step {c : Callback} (hstart : c.isStart = false) :
    (t.step c).txHash = t.txHash := by
  cases c with
  | startTransaction hash => cases hstart
  | contextEnter frame heap =>
    show (t.traceContextEnter frame heap).txHash = t.txHash
    unfold traceContextEnter
    split
    · rfl
    · split
      · rfl
      · split <;> rfl
  | preExecution frame heap =>
    obtain ⟨added, heq⟩ := t.tracePreExecution_eq frame heap
    show (t.tracePreExecution frame heap).txHash = t.txHash
    rw [heq]
  | contextExit frame heap =>
    show (t.traceContextExit frame heap).txHash = t.txHash
    unfold traceContextExit
    split
    · rfl
    · split
      · rfl
      · split <;> rfl
  | endTransaction selfDestructs overflow => rfl

/-- A tracer that saw a transaction is one behind its last start. -/
theorem exists_last_start {callbacks : List Callback} (hfresh : t.txHash = none)
    (h : (t.run callbacks).txHash = some txHash) :
    ∃ before since, callbacks = before ++ .startTransaction txHash :: since ∧
      (∀ c ∈ since, c.isStart = false) ∧ t.run callbacks = afterStart txHash since := by
  induction callbacks using List.reverseRecOn with
  | nil =>
    rw [show t.run [] = t from rfl, hfresh] at h
    cases h
  | append_singleton callbacks c ih =>
    have hrun : t.run (callbacks ++ [c]) = (t.run callbacks).step c := by
      rw [Tracer.run, foldl_append]
      rfl
    rw [hrun] at h ⊢
    cases hc : c.isStart with
    | true =>
      obtain ⟨hash, rfl⟩ : ∃ hash, c = .startTransaction hash := by
        cases c with
        | startTransaction hash => exact ⟨hash, rfl⟩
        | contextEnter frame heap | preExecution frame heap | contextExit frame heap
        | endTransaction selfDestructs overflow =>
          cases hc
      obtain rfl : hash = txHash := Option.some.inj h
      exact ⟨callbacks, [], rfl, fun c hc => absurd hc not_mem_nil, rfl⟩
    | false =>
      rw [txHash_of_step hc] at h
      obtain ⟨before, since, rfl, hsince, heq⟩ := ih h
      refine ⟨before, since ++ [c], by simp, ?_, ?_⟩
      · intro c' hc'
        rcases mem_append.mp hc' with hc' | hc'
        · exact hsince c' hc'
        · rw [mem_singleton.mp hc']
          exact hc
      · rw [heq, afterStart_concat]

/-- No lifecycle operation was seen: since the start no creation frame was entered, up
to the last end no such operation was about to run, and no end reported a
self-destruct. -/
structure NoLifecycle (since : List Callback) : Prop where
  creations : ∀ c ∈ since, c.entersCreation = false
  operations : ∀ before selfDestructs overflow after,
    since = before ++ .endTransaction selfDestructs overflow :: after →
      ∀ c ∈ before, c.lifecycleOperation = false
  selfDestructs : ∀ c ∈ since, c.reportsSelfDestruct = false

theorem noLifecycle_of_records {since : List Callback} (hstart : ∀ c ∈ since, c.isStart = false)
    (herror : (afterStart txHash since).error = none)
    (hnone : (afterStart txHash since).hasLifecycleRecord = false) : NoLifecycle since := by
  have hsettled : ∀ before selfDestructs overflow after,
      since = before ++ .endTransaction selfDestructs overflow :: after →
        ¬ (before.any Callback.isLifecycle = true ∨ selfDestructs ≠ []) := by
    rintro before selfDestructs overflow after rfl hseen
    rw [lifecycle_recorded hstart herror hseen] at hnone
    cases hnone
  refine ⟨?_, ?_, ?_⟩
  · intro c hc
    rw [← Bool.not_eq_true]
    intro henters
    have hany : since.any Callback.entersCreation = true := any_eq_true.mpr ⟨c, hc, henters⟩
    rw [(traced_afterStart hstart herror).1.created hany] at hnone
    cases hnone
  · intro before selfDestructs overflow after hsplit c hc
    rw [← Bool.not_eq_true]
    intro hop
    refine hsettled before selfDestructs overflow after hsplit (.inl ?_)
    refine any_eq_true.mpr ⟨c, hc, ?_⟩
    rw [Callback.isLifecycle, hop, Bool.or_true, Bool.true_or]
  · intro c hc
    obtain ⟨before, after, hsplit⟩ := append_of_mem hc
    cases c with
    | endTransaction selfDestructs overflow =>
      have hempty : selfDestructs = [] := by
        by_contra hne
        exact hsettled before selfDestructs overflow after hsplit (.inr hne)
      rw [hempty]
      rfl
    | startTransaction hash => rfl
    | contextEnter frame heap => rfl
    | preExecution frame heap => rfl
    | contextExit frame heap => rfl

/-- The producer gate. A candidate is selected only if the store then holds an unexpired
approval for its hash on this chain, the frames entered since its last start callback
were exited in nesting order with no end callback in between, there was an end callback,
and, for a calls approval, no lifecycle operation was seen. -/
theorem selected_only_if_observed {c : Candidate} {store store' : Store} {now now' : Int64}
    {callbacks : List Callback} {invalid : Bool}
    (h : c.postProcessing ((c.preProcessing store now).2.observe callbacks) store' now' invalid =
      .ok ()) :
    ∃ stored, store' c.txHash = some stored ∧ now' < stored.expiresAt ∧
      stored.approval.chainId = c.chainId ∧
      ∃ before since, callbacks = before ++ .startTransaction c.txHash :: since ∧
        (∀ callback ∈ since, callback.isStart = false) ∧ Nesting.Exited Callback.mark since ∧
        (∃ callback ∈ since, callback.isEnd = true) ∧
        (stored.approval.hashMode = hashCalls → NoLifecycle since) := by
  obtain ⟨stored, hstored, haccepts⟩ := accepts_of_postProcessing h
  have hfresh : (c.preProcessing store now).2.tracer = {} := by
    unfold Candidate.preProcessing
    split
    · rfl
    · split
      · rfl
      · split <;> rfl
  have htracer : ((c.preProcessing store now).2.observe callbacks).tracer =
      run {} callbacks := by
    rw [← hfresh]
    rfl
  rw [htracer] at haccepts
  obtain ⟨before, since, hsplit, hstart, heq⟩ := exists_last_start rfl haccepts.observed
  rw [heq] at haccepts
  obtain ⟨htraced, -⟩ := traced_afterStart hstart haccepts.noError
  obtain ⟨hended, hopen⟩ : (afterStart c.txHash since).ended = true ∧
      (afterStart c.txHash since).openFrames = [] := by
    have hcomplete := haccepts.complete
    rw [Tracer.complete, Bool.and_eq_true, List.isEmpty_iff] at hcomplete
    exact hcomplete
  refine ⟨stored, hstored, haccepts.unexpired, haccepts.chain, before, since, hsplit, hstart,
    Nesting.exited_of_tracked (hopen ▸ htraced.frames), ?_, ?_⟩
  · rw [htraced.ended, any_eq_true] at hended
    exact hended
  · intro hcalls
    apply noLifecycle_of_records hstart haccepts.noError
    have hmode := haccepts.mode
    rw [hcalls, Candidate.requiredMode] at hmode
    rw [← Bool.not_eq_true]
    intro hhas
    rw [if_pos hhas] at hmode
    exact absurd hmode (by decide)

/-! ## A candidate -/

def plainFrame (operation : Option Operation) : FrameView where
  creation := false
  operation := operation
  sender := block 20 [1]
  recipient := block 20 [2]
  contract := block 20 [2]
  code := none
  value := 0
  input := []
  failed := false
  stackTop := block 20 []
  balance := 0

def plainCandidate : Candidate where
  chainId := 1
  txHash := block 32 [9]
  timedOut := fun _ => false
  keccak256 := fun _ => block 32 [7]
  strict := fun _ => .error "not asked for"

def callsStore : Store :=
  fun _ => some ⟨⟨hashCalls, 1, block 32 [9], block 32 [7], block 32 []⟩, 10⟩

def plainCallbacks : List Callback :=
  [.startTransaction (block 32 [9]), .contextEnter 0 fun _ => plainFrame none,
    .contextExit 0 fun _ => plainFrame none, .endTransaction [] none]

theorem selected_only_if_observed_plain :
    ∃ stored, callsStore plainCandidate.txHash = some stored ∧ 6 < stored.expiresAt ∧
      stored.approval.chainId = plainCandidate.chainId ∧
      ∃ before since, plainCallbacks = before ++ .startTransaction plainCandidate.txHash :: since ∧
        (∀ callback ∈ since, callback.isStart = false) ∧ Nesting.Exited Callback.mark since ∧
        (∃ callback ∈ since, callback.isEnd = true) ∧
        (stored.approval.hashMode = hashCalls → NoLifecycle since) := by
  have hselected : plainCandidate.postProcessing
      ((plainCandidate.preProcessing callsStore 5).2.observe plainCallbacks) callsStore 6 false =
        .ok () := by
    decide
  exact selected_only_if_observed hselected

/-- Callbacks behind the end of the transaction: a frame is entered and exited, and a
CREATE is about to run in it. -/
def lateCallbacks : List Callback :=
  plainCallbacks ++ [.contextEnter 1 fun _ => plainFrame none,
    .preExecution 1 fun _ => plainFrame (some ⟨0xF0, "CREATE"⟩),
    .contextExit 1 fun _ => plainFrame none]

/-- They do not keep the candidate from being selected under a calls approval. -/
theorem selected_with_late_create :
    plainCandidate.postProcessing
      ((plainCandidate.preProcessing callsStore 5).2.observe lateCallbacks) callsStore 6 false =
        .ok () ∧
    (callsStore plainCandidate.txHash).map (·.approval.hashMode) = some hashCalls ∧
    lateCallbacks.any Callback.lifecycleOperation = true := by
  refine ⟨?_, rfl, rfl⟩
  decide +kernel

end PrivacySuite.Besu
