import PrivacySuite.Besu.CallsFingerprint
import PrivacySuite.Data.Nesting

/-!
# The tracer of the Besu plugin

`ApprovalTracer`: the callbacks of one candidate turn into records, a lifecycle flag, an
error and the frames that are still open. A `MessageFrame` is an object that changes
while it runs, so a callback carries the heap it reads: what each frame says at that
moment. The snapshot of the touched accounts, the outputs and the logs are read by the
strict fingerprint only; what reaches the tracer is that the snapshot overflowed, which
is part of the end callback.

`Traced` says what the state of a tracer without an error tells about the callbacks since
the transaction's start.
-/

namespace PrivacySuite.Besu

open Data NodeApproval List

/-! ## Callbacks -/

abbrev FrameId := Nat

structure Operation where
  opcode : Nat
  name : String

/-- What a frame says when a callback looks at it. `stackTop` and `balance` are the
address on top of its stack and the balance of its recipient. -/
structure FrameView where
  creation : Bool
  operation : Option Operation
  sender : Address
  recipient : Address
  contract : Address
  code : Option (Hash × List UInt8)
  value : BitVec 256
  input : List UInt8
  failed : Bool
  stackTop : Address
  balance : BitVec 256

abbrev Heap := FrameId → FrameView

inductive Callback where
  | startTransaction (txHash : Hash)
  | contextEnter (frame : FrameId) (heap : Heap)
  | preExecution (frame : FrameId) (heap : Heap)
  | contextExit (frame : FrameId) (heap : Heap)
  | endTransaction (selfDestructs : List Address) (overflow : Option String)

structure Tracer where
  records : List CallRecord := []
  openRecords : List Nat := []
  openFrames : List FrameId := []
  txHash : Option Hash := none
  lifecycle : Option String := none
  error : Option String := none
  ended : Bool := false

def create : Int := 5

def create2 : Int := 6

def selfDestruct : Int := 7

def opName (frame : FrameView) : String :=
  match frame.operation with
  | some op => op.name
  | none => ""

namespace Tracer

/-- `openRecords.isEmpty() ? ROOT_PARENT : openRecords.peek()`. -/
def parentRecord (t : Tracer) : Int :=
  match t.openRecords with
  | [] => rootParent
  | index :: _ => index

def enteredKind (t : Tracer) (frame : FrameView) (heap : Heap) : Except String Int :=
  match frame.creation, t.openFrames with
  | true, [] => .ok create
  | true, parent :: _ => .ok (if opName (heap parent) = "CREATE2" then create2 else create)
  | false, [] => .ok 1
  | false, parent :: _ =>
      if opName (heap parent) = "CALL" then .ok 1
      else if opName (heap parent) = "STATICCALL" then .ok 2
      else if opName (heap parent) = "DELEGATECALL" then .ok 3
      else if opName (heap parent) = "CALLCODE" then .ok 4
      else .error ("frame entered by unsupported operation " ++ opName (heap parent))

def enteredRecord (t : Tracer) (kind : Int) (frame : FrameView) (heap : Heap) : CallRecord where
  parent := t.parentRecord
  kind := kind
  fromAddr := match t.openFrames with
    | [] => frame.sender
    | parent :: _ => (heap parent).recipient
  toAddr := frame.contract
  storage := frame.recipient
  codeHash := match frame.code with
    | some code => code.1
    | none => emptyCodeHash
  value := frame.value
  failed := false
  input := match frame.creation, frame.code with
    | true, some code => code.2
    | _, _ => frame.input

def traceContextEnter (t : Tracer) (frame : FrameId) (heap : Heap) : Tracer :=
  if t.error.isSome then t
  else if t.records.length ≥ maxCalls then { t with error := some "more than 128 calls" }
  else
    match t.enteredKind (heap frame) heap with
    | .error text => { t with error := some text }
    | .ok kind =>
        { t with
          lifecycle := if (heap frame).creation then some "contract creation" else t.lifecycle
          records := t.records ++ [t.enteredRecord kind (heap frame) heap]
          openRecords := t.records.length :: t.openRecords
          openFrames := frame :: t.openFrames }

def lifecycleFlag (op : Operation) : Option String :=
  if op.opcode = 0xF0 ∨ op.opcode = 0xF5 then some "contract creation"
  else if op.opcode = 0xFF then some "selfdestruct"
  else none

def lifecycleOpcode (t : Tracer) (frame : FrameView) : Tracer :=
  { t with lifecycle := t.lifecycle <|> frame.operation.bind lifecycleFlag }

/-- The record of a self-destruct, for which there is no frame. -/
def selfDestructRecord (t : Tracer) (frame : FrameView) : CallRecord where
  parent := t.parentRecord
  kind := selfDestruct
  fromAddr := frame.recipient
  toAddr := frame.stackTop
  storage := frame.recipient
  codeHash := emptyCodeHash
  value := frame.balance
  failed := false
  input := []

def tracePreExecution (t : Tracer) (frame : FrameId) (heap : Heap) : Tracer :=
  if (t.lifecycleOpcode (heap frame)).error.isSome ∨
      (t.lifecycleOpcode (heap frame)).openFrames = [] then t.lifecycleOpcode (heap frame)
  else
    match (heap frame).operation with
    | none => t.lifecycleOpcode (heap frame)
    | some op =>
        if op.opcode = 0xff then
          { t.lifecycleOpcode (heap frame) with
            records := t.records ++ [t.selfDestructRecord (heap frame)] }
        else t.lifecycleOpcode (heap frame)

def traceContextExit (t : Tracer) (frame : FrameId) (heap : Heap) : Tracer :=
  if t.error.isSome then t
  else
    match t.openFrames with
    | [] => t
    | top :: frames =>
        if top ≠ frame then { t with error := some "frame nesting mismatch" }
        else
          { t with
            openFrames := frames
            openRecords := t.openRecords.tail
            records := match t.openRecords with
              | [] => t.records
              | index :: _ =>
                  t.records.modify index fun seen => { seen with failed := (heap frame).failed } }

/-- Some record is of a creation or a self-destruct. -/
def hasLifecycleRecord (t : Tracer) : Bool := t.records.any fun r => decide (r.kind ≥ create)

/-- The error behind an end callback; the first one stays. -/
def endError (t : Tracer) (selfDestructs : List Address) (overflow : Option String) :
    Option String :=
  t.error <|> (if t.openFrames ≠ [] then some "frames left open" else none) <|> overflow <|>
    (if (selfDestructs ≠ [] ∨ t.lifecycle.isSome = true) ∧ t.hasLifecycleRecord = false then
      some "lifecycle operation without an observable frame" else none)

def traceEndTransaction (t : Tracer) (selfDestructs : List Address) (overflow : Option String) :
    Tracer :=
  { t with
    lifecycle := if selfDestructs ≠ [] then some "selfdestruct" else t.lifecycle
    error := t.endError selfDestructs overflow
    ended := true }

def step (t : Tracer) : Callback → Tracer
  | .startTransaction txHash => { txHash := some txHash }
  | .contextEnter frame heap => t.traceContextEnter frame heap
  | .preExecution frame heap => t.tracePreExecution frame heap
  | .contextExit frame heap => t.traceContextExit frame heap
  | .endTransaction selfDestructs overflow => t.traceEndTransaction selfDestructs overflow

def run (t : Tracer) (callbacks : List Callback) : Tracer := callbacks.foldl step t

def complete (t : Tracer) : Bool := t.ended && t.openFrames.isEmpty

/-! ## What a callback says -/

end Tracer

namespace Callback

/-- What a callback does to the open frames: a transaction starts and ends outside of
them. -/
def mark : Callback → Mark FrameId
  | .startTransaction _ => .outer
  | .contextEnter frame _ => .enter frame
  | .preExecution _ _ => .free
  | .contextExit frame _ => .leave frame
  | .endTransaction _ _ => .outer

def isStart : Callback → Bool
  | .startTransaction _ => true
  | _ => false

def isEnd : Callback → Bool
  | .endTransaction _ _ => true
  | _ => false

def entersCreation : Callback → Bool
  | .contextEnter frame heap => (heap frame).creation
  | _ => false

def lifecycleOperation : Callback → Bool
  | .preExecution frame heap => ((heap frame).operation.bind Tracer.lifecycleFlag).isSome
  | _ => false

def reportsSelfDestruct : Callback → Bool
  | .endTransaction selfDestructs _ => !selfDestructs.isEmpty
  | _ => false

def isLifecycle (c : Callback) : Bool :=
  c.entersCreation || c.lifecycleOperation || c.reportsSelfDestruct

end Callback

namespace Tracer

/-! ## One callback -/

variable {t : Tracer} {frame : FrameId} {heap : Heap} {txHash : Hash}

theorem error_of_enter (h : (t.traceContextEnter frame heap).error = none) :
    t.error = none ∧ ∃ kind, t.enteredKind (heap frame) heap = .ok kind ∧
      t.traceContextEnter frame heap =
        { t with
          lifecycle := if (heap frame).creation then some "contract creation" else t.lifecycle
          records := t.records ++ [t.enteredRecord kind (heap frame) heap]
          openRecords := t.records.length :: t.openRecords
          openFrames := frame :: t.openFrames } := by
  unfold traceContextEnter at h ⊢
  split at h
  · rename_i herror
    rw [h] at herror
    cases herror
  · rename_i herror
    have hnone : t.error = none := by simpa using herror
    split at h
    · cases h
    · rename_i hfew
      rw [if_neg herror, if_neg hfew]
      cases hkind : t.enteredKind (heap frame) heap with
      | error text =>
        rw [hkind] at h
        cases h
      | ok kind => exact ⟨hnone, kind, rfl, rfl⟩

theorem enteredKind_creation {frame : FrameView} {kind : Int}
    (h : t.enteredKind frame heap = .ok kind) (hcreation : frame.creation = true) :
    kind ≥ create := by
  unfold enteredKind at h
  rw [hcreation] at h
  split at h
  · obtain rfl := Except.ok.inj h
    decide
  · obtain rfl := Except.ok.inj h
    split <;> decide
  · rename_i hfalse _
    cases hfalse
  · rename_i hfalse _
    cases hfalse

structure Stepped (t : Tracer) (c : Callback) (t' : Tracer) : Prop where
  noError : t.error = none
  frames : Nesting.track Callback.mark t.openFrames c = some t'.openFrames
  lifecycle : t'.lifecycle.isSome = (t.lifecycle.isSome || c.isLifecycle)
  keeps : t.hasLifecycleRecord = true → t'.hasLifecycleRecord = true
  created : c.entersCreation = true → t'.hasLifecycleRecord = true
  ended : t'.ended = (t.ended || c.isEnd)
  txHash : t'.txHash = t.txHash
  settles : c.isEnd = true → t'.lifecycle.isSome = true → t'.hasLifecycleRecord = true

theorem stepped_enter (h : (t.traceContextEnter frame heap).error = none) :
    Stepped t (.contextEnter frame heap) (t.traceContextEnter frame heap) := by
  obtain ⟨hnone, kind, hkind, heq⟩ := error_of_enter h
  rw [heq]
  have hadd : ∀ r : CallRecord, (t.records ++ [r]).any (fun r => decide (r.kind ≥ create)) =
      (t.hasLifecycleRecord || decide (r.kind ≥ create)) := by
    intro r
    rw [any_append, hasLifecycleRecord]
    simp
  refine ⟨hnone, rfl, ?_, ?_, ?_, ?_, rfl, ?_⟩
  · show (if (heap frame).creation = true then _ else _ : Option String).isSome =
      (t.lifecycle.isSome || ((heap frame).creation || false || false))
    cases (heap frame).creation <;> simp
  · intro hhas
    show (t.records ++ [_]).any _ = true
    rw [hadd, hhas]
    rfl
  · intro hcreation
    show (t.records ++ [_]).any _ = true
    have hge : (t.enteredRecord kind (heap frame) heap).kind ≥ create :=
      enteredKind_creation hkind hcreation
    rw [hadd, decide_eq_true hge, Bool.or_true]
  · exact (Bool.or_false _).symm
  · intro hend
    cases hend

theorem tracePreExecution_eq (t : Tracer) (frame : FrameId) (heap : Heap) :
    ∃ added, t.tracePreExecution frame heap =
      { t with
        lifecycle := t.lifecycle <|> (heap frame).operation.bind lifecycleFlag
        records := t.records ++ added } := by
  have hflag : t.lifecycleOpcode (heap frame) =
      { t with
        lifecycle := t.lifecycle <|> (heap frame).operation.bind lifecycleFlag
        records := t.records ++ [] } := by
    rw [append_nil]
    rfl
  unfold tracePreExecution
  split
  · exact ⟨[], hflag⟩
  · split
    · exact ⟨[], hflag⟩
    · split
      · exact ⟨[_], rfl⟩
      · exact ⟨[], hflag⟩

theorem stepped_preExecution (h : (t.tracePreExecution frame heap).error = none) :
    Stepped t (.preExecution frame heap) (t.tracePreExecution frame heap) := by
  obtain ⟨added, heq⟩ := t.tracePreExecution_eq frame heap
  rw [heq] at h ⊢
  refine ⟨h, rfl, ?_, ?_, ?_, (Bool.or_false _).symm, rfl, ?_⟩
  · show (t.lifecycle <|> (heap frame).operation.bind lifecycleFlag).isSome = (t.lifecycle.isSome ||
      (false || ((heap frame).operation.bind lifecycleFlag).isSome || false))
    cases t.lifecycle <;> simp
  · intro hhas
    show (t.records ++ added).any _ = true
    rw [any_append, show t.records.any _ = true from hhas, Bool.true_or]
  · intro hfalse
    cases hfalse
  · intro hfalse
    cases hfalse

theorem any_kind_modify (records : List CallRecord) (index : Nat) (failed : Bool) :
    (records.modify index fun seen => { seen with failed := failed }).any
      (fun r => decide (r.kind ≥ create)) = records.any fun r => decide (r.kind ≥ create) := by
  induction records generalizing index with
  | nil => rw [modify_nil]
  | cons r records ih =>
    cases index with
    | zero => rfl
    | succ index =>
      rw [modify_succ_cons, any_cons, any_cons, ih]

theorem stepped_exit (h : (t.traceContextExit frame heap).error = none) :
    Stepped t (.contextExit frame heap) (t.traceContextExit frame heap) := by
  have hnone : t.error = none := by
    unfold traceContextExit at h
    split at h
    · exact h
    · rename_i herror
      simpa using herror
  have hor : ∀ b : Bool, b = (b || false) := fun b => (Bool.or_false b).symm
  cases hframes : t.openFrames with
  | nil =>
    have heq : t.traceContextExit frame heap = t := by
      unfold traceContextExit
      rw [hnone, hframes]
      rfl
    rw [heq]
    refine ⟨hnone, ?_, hor _, id, nofun, hor _, rfl, nofun⟩
    rw [hframes]
    rfl
  | cons top frames =>
    by_cases htop : top = frame
    · subst htop
      obtain ⟨records, heq, hrecords⟩ : ∃ records, t.traceContextExit top heap =
          { t with
            openFrames := frames
            openRecords := t.openRecords.tail
            records := records } ∧
          records.any (fun r => decide (r.kind ≥ create)) = t.hasLifecycleRecord := by
        unfold traceContextExit
        rw [hnone, hframes]
        refine ⟨_, if_neg (not_not.mpr rfl), ?_⟩
        split
        · rfl
        · exact any_kind_modify _ _ _
      rw [heq]
      refine ⟨hnone, ?_, hor _, hrecords.trans, nofun, hor _, rfl, nofun⟩
      rw [hframes]
      exact if_pos rfl
    · have heq : t.traceContextExit frame heap =
          { t with error := some "frame nesting mismatch" } := by
        unfold traceContextExit
        rw [hnone, hframes]
        exact if_pos htop
      rw [heq] at h
      cases h

variable {selfDestructs : List Address} {overflow : Option String} {before after : List Callback}

theorem stepped_end (h : (t.traceEndTransaction selfDestructs overflow).error = none) :
    Stepped t (.endTransaction selfDestructs overflow)
      (t.traceEndTransaction selfDestructs overflow) := by
  have herror : t.endError selfDestructs overflow = none := h
  unfold endError at herror
  simp only [Option.orElse_eq_none, ite_eq_right_iff, reduceCtorEq, imp_false, not_not] at herror
  obtain ⟨hnone, hframes, -, hsettled⟩ := herror
  have hflag : (t.traceEndTransaction selfDestructs overflow).lifecycle.isSome =
      (t.lifecycle.isSome || Callback.isLifecycle (.endTransaction selfDestructs overflow)) := by
    show (if selfDestructs ≠ [] then some "selfdestruct" else t.lifecycle).isSome =
      (t.lifecycle.isSome || (false || false || !selfDestructs.isEmpty))
    cases selfDestructs <;> simp
  refine ⟨hnone, ?_, hflag, id, ?_, (Bool.or_true _).symm, rfl, ?_⟩
  · rw [hframes]
    show _ = some t.openFrames
    rw [hframes]
    rfl
  · intro hfalse
    cases hfalse
  · intro _ hlifecycle
    rw [hflag, Bool.or_eq_true] at hlifecycle
    have hseen : selfDestructs ≠ [] ∨ t.lifecycle.isSome = true := by
      rcases hlifecycle with hbefore | hnow
      · exact .inr hbefore
      · refine .inl fun hempty => ?_
        rw [hempty] at hnow
        cases hnow
    show t.hasLifecycleRecord = true
    by_contra hno
    exact hsettled ⟨hseen, by simpa using hno⟩

/-- One callback that is no start of a transaction. -/
theorem stepped_of_step {c : Callback} (hstart : c.isStart = false) (h : (t.step c).error = none) :
    Stepped t c (t.step c) := by
  cases c with
  | startTransaction hash => cases hstart
  | contextEnter frame heap => exact stepped_enter h
  | preExecution frame heap => exact stepped_preExecution h
  | contextExit frame heap => exact stepped_exit h
  | endTransaction selfDestructs overflow => exact stepped_end h

/-! ## The callbacks of a transaction -/

/-- The tracer behind the start of a transaction and some callbacks. -/
def afterStart (txHash : Hash) (callbacks : List Callback) : Tracer :=
  run { txHash := some txHash } callbacks

theorem afterStart_concat (txHash : Hash) (callbacks : List Callback) (c : Callback) :
    afterStart txHash (callbacks ++ [c]) = (afterStart txHash callbacks).step c := by
  rw [afterStart, run, foldl_append]
  rfl

/-- What a tracer without an error knows about the callbacks since the start. -/
structure Traced (callbacks : List Callback) (t : Tracer) : Prop where
  frames : Nesting.tracked Callback.mark callbacks = some t.openFrames
  lifecycle : t.lifecycle.isSome = callbacks.any Callback.isLifecycle
  created : callbacks.any Callback.entersCreation = true → t.hasLifecycleRecord = true
  ended : t.ended = callbacks.any Callback.isEnd

theorem traced_afterStart {callbacks : List Callback} (hstart : ∀ c ∈ callbacks, c.isStart = false)
    (h : (afterStart txHash callbacks).error = none) :
    Traced callbacks (afterStart txHash callbacks) ∧
      (afterStart txHash callbacks).txHash = some txHash := by
  induction callbacks using List.reverseRecOn with
  | nil =>
    refine ⟨⟨rfl, rfl, ?_, rfl⟩, rfl⟩
    intro hfalse
    cases hfalse
  | append_singleton callbacks c ih =>
    rw [afterStart_concat] at h ⊢
    have hstep := stepped_of_step (hstart c (by simp)) h
    obtain ⟨htraced, hhash⟩ := ih (fun c' hc' => hstart c' (mem_append_left _ hc')) hstep.noError
    refine ⟨⟨?_, ?_, ?_, ?_⟩, hstep.txHash.trans hhash⟩
    · rw [Nesting.tracked_concat, htraced.frames]
      exact hstep.frames
    · rw [hstep.lifecycle, htraced.lifecycle, any_append]
      simp
    · intro hany
      rw [any_append, Bool.or_eq_true] at hany
      rcases hany with hbefore | hnow
      · exact hstep.keeps (htraced.created hbefore)
      · exact hstep.created (by simpa using hnow)
    · rw [hstep.ended, htraced.ended, any_append]
      simp

theorem noError_of_append (hstart : ∀ c ∈ after, c.isStart = false)
    (h : (afterStart txHash (before ++ after)).error = none) :
    (afterStart txHash before).error = none ∧
      ((afterStart txHash before).hasLifecycleRecord = true →
        (afterStart txHash (before ++ after)).hasLifecycleRecord = true) := by
  induction after using List.reverseRecOn with
  | nil =>
    rw [append_nil] at h ⊢
    exact ⟨h, id⟩
  | append_singleton after c ih =>
    rw [← append_assoc, afterStart_concat] at h ⊢
    have hstep := stepped_of_step (hstart c (by simp)) h
    obtain ⟨hbefore, hkeeps⟩ :=
      ih (fun c' hc' => hstart c' (mem_append_left _ hc')) hstep.noError
    exact ⟨hbefore, fun hhas => hstep.keeps (hkeeps hhas)⟩

/-- A lifecycle event up to an end callback has left a record, if there is no error. -/
theorem lifecycle_recorded
    (hstart : ∀ c ∈ before ++ .endTransaction selfDestructs overflow :: after, c.isStart = false)
    (h : (afterStart txHash (before ++ .endTransaction selfDestructs overflow :: after)).error =
      none) (hseen : before.any Callback.isLifecycle = true ∨ selfDestructs ≠ []) :
    (afterStart txHash
        (before ++ .endTransaction selfDestructs overflow :: after)).hasLifecycleRecord
      = true := by
  have hsplit : before ++ .endTransaction selfDestructs overflow :: after =
      (before ++ [.endTransaction selfDestructs overflow]) ++ after := by
    simp
  rw [hsplit] at h hstart ⊢
  obtain ⟨hend, hkeeps⟩ := noError_of_append (fun c hc => hstart c (mem_append_right _ hc)) h
  apply hkeeps
  have hstarts := fun c hc => hstart c (mem_append_left after hc)
  obtain ⟨htraced, -⟩ := traced_afterStart hstarts hend
  have hlifecycle := htraced.lifecycle
  rw [afterStart_concat] at hend hlifecycle ⊢
  apply (stepped_of_step rfl hend).settles rfl
  rw [hlifecycle, any_append, Bool.or_eq_true]
  rcases hseen with hbefore | hdestroyed
  · exact .inl hbefore
  · refine .inr ?_
    cases selfDestructs with
    | nil => exact absurd rfl hdestroyed
    | cons a rest => rfl

end Tracer

end PrivacySuite.Besu
