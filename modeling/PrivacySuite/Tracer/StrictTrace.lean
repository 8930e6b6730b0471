import PrivacySuite.Tracer.Trace
import PrivacySuite.Data.Rose
import PrivacySuite.Go.Json

/-!
# The strict reading of a call trace

`ParseStrictCallTrace` reads the trace a client gets back, `ParseCallTraceResult` the one only
the validator sees. On a tree both accept they list the same frames exactly if it has no
`SELFDESTRUCT` frame and no failed one (`readers_agree_iff`).
-/

namespace PrivacySuite.Tracer

open Go Phase Data List

/-- The fields of a `strictFrame`, its calls apart. -/
structure StrictCall where
  kind : CallKind
  fromAddr : String := ""
  toAddr : String := ""
  value : String := ""
  gas : String := ""
  gasUsed : String := ""
  input : String := ""
  output : String := ""
  error : String := ""
  revertReason : String := ""

def untrustedTrace : String := "trace is not a well-formed callTracer tree"

def isStrictAddress (s : String) : Bool :=
  s.length == 42 && (s.toList.take 2 == ['0', 'x'] || s.toList.take 2 == ['0', 'X']) &&
    (s.toList.drop 2).all fun c => (hexDigit c).isSome

def frameStorageContext (kind : CallKind) (toAddr parentStorage : String) : String :=
  if kind = .delegateCall ∨ kind = .callCode then parentStorage else toAddr

/-- The type a frame is recorded with. -/
def CallKind.recorded : CallKind → CallKind
  | callCode => delegateCall
  | selfDestruct => call
  | kind => kind

namespace StrictCall

variable (f : StrictCall) (depth : Nat)

/-- The checks made on a frame before it is recorded. -/
def check : Except String Unit :=
  if maxTraceDepth < depth then .error traceDepthExceeded
  else if (f.fromAddr ≠ "" ∨ 0 < depth) ∧ isStrictAddress f.fromAddr = false then
    .error untrustedTrace
  else
    match f.kind with
    | .other _ => .error untrustedTrace
    | .create | .create2 =>
        -- the created address; empty when the creation failed
        if f.toAddr ≠ "" ∧ isStrictAddress f.toAddr = false then .error untrustedTrace else .ok ()
    | _ => if isStrictAddress f.toAddr then .ok () else .error untrustedTrace

/-- What is recorded of a frame. Its error is not copied. -/
def target (storageAddress : String) : CallTarget where
  kind := f.kind.recorded
  fromAddr := f.fromAddr
  toAddr := f.toAddr
  depth
  storageAddress
  input := f.input

def record (parentStorage : String) (result : TraceResult) : TraceResult where
  callTargets := result.callTargets ++
    [f.target depth (frameStorageContext f.kind f.toAddr parentStorage)]
  hasCreate := result.hasCreate || f.kind == .create
  hasCreate2 := result.hasCreate2 || f.kind == .create2

end StrictCall

mutual

def collectStrictTargets :
    Rose StrictCall → TraceResult → Nat → String → Except String TraceResult
  | .node f calls, result, depth, parentStorage => do
      f.check depth
      collectStrictCalls calls (f.record depth parentStorage result) (depth + 1)
        (frameStorageContext f.kind f.toAddr parentStorage)

def collectStrictCalls :
    List (Rose StrictCall) → TraceResult → Nat → String → Except String TraceResult
  | [], result, _, _ => .ok result
  | frame :: rest, result, depth, parentStorage => do
      let result ← collectStrictTargets frame result depth parentStorage
      collectStrictCalls rest result depth parentStorage

end

/-- `ParseStrictCallTrace`, from the decoded root frame to the frame that is encoded again. -/
def parseStrictCallTrace (root : Rose StrictCall) :
    Except String (Rose StrictCall × TraceResult) := do
  let result ← collectStrictTargets root {} 0 ""
  return (root, result)

mutual

/-- The frame as the lenient reader decodes it. -/
def lenient : Rose StrictCall → CallFrame
  | .node f calls => .mk f.kind f.fromAddr f.toAddr f.error (lenientAll calls)

def lenientAll : List (Rose StrictCall) → List CallFrame
  | [] => []
  | frame :: rest => lenient frame :: lenientAll rest

end

mutual

/-- The frames in pre-order, with their depths. -/
def visits (depth : Nat) : Rose StrictCall → List (StrictCall × Nat)
  | .node f calls => (f, depth) :: visitsAll (depth + 1) calls

def visitsAll (depth : Nat) : List (Rose StrictCall) → List (StrictCall × Nat)
  | [] => []
  | frame :: rest => visits depth frame ++ visitsAll depth rest

end

/-- What a target says about its frame: how it was recorded, between which accounts, where, and
whether it succeeded. -/
def CallTarget.reading (t : CallTarget) : CallKind × String × String × Nat × Bool :=
  (t.kind.recorded, t.fromAddr, t.toAddr, t.depth, t.error == "")

def TraceResult.readings (result : TraceResult) : List (CallKind × String × String × Nat × Bool) :=
  result.callTargets.map CallTarget.reading

/-- The frame as it is; `ok` is whether it is taken to have succeeded. -/
def StrictCall.reading (f : StrictCall) (depth : Nat) (ok : Bool) :
    CallKind × String × String × Nat × Bool :=
  (f.kind.recorded, f.fromAddr, f.toAddr, depth, ok)

/-- A frame that passes the checks is listed unless it is a `SELFDESTRUCT`. -/
theorem callTargets_add {result : TraceResult} {t : CallTarget}
    (h : checkFrame t.kind t.toAddr t.depth = .ok ()) :
    (result.add t).callTargets = result.callTargets ++ [t].filter (·.kind != .selfDestruct) := by
  unfold TraceResult.add
  cases hkind : t.kind with
  | other name => simp [hkind, checkFrame, CallKind.validRoot, CallKind.validNested] at h; grind
  | _ => simp [hkind]

mutual

theorem readings_lenient {result result' : TraceResult} {depth : Nat} (frame : Rose StrictCall)
    (h : extractCallTargets (lenient frame) result depth = .ok result') :
    result'.readings = result.readings ++
      ((visits depth frame).filter (·.1.kind != .selfDestruct)).map
        fun v => v.1.reading v.2 (v.1.error == "") := by
  match frame with
  | .node f calls =>
    rw [lenient, extractCallTargets] at h
    obtain ⟨⟨⟩, hcheck, h⟩ := bind_ok_cases h
    rw [readings_lenientAll calls h, TraceResult.readings, callTargets_add hcheck, visits,
      map_append, append_assoc]
    simp only [filter_cons, filter_nil]
    split <;> rfl

theorem readings_lenientAll {result result' : TraceResult} {depth : Nat}
    (frames : List (Rose StrictCall))
    (h : extractCalls (lenientAll frames) result depth = .ok result') :
    result'.readings = result.readings ++
      ((visitsAll depth frames).filter (·.1.kind != .selfDestruct)).map
        fun v => v.1.reading v.2 (v.1.error == "") := by
  match frames with
  | [] =>
    obtain rfl := Except.ok.inj h
    exact (append_nil _).symm
  | frame :: rest =>
    rw [lenientAll, extractCalls] at h
    obtain ⟨middle, hfirst, h⟩ := bind_ok_cases h
    rw [readings_lenientAll rest h, readings_lenient frame hfirst, visitsAll, filter_append,
      map_append, append_assoc]

end

mutual

theorem readings_strict {result result' : TraceResult} {depth : Nat} {parentStorage : String}
    (frame : Rose StrictCall)
    (h : collectStrictTargets frame result depth parentStorage = .ok result') :
    result'.readings = result.readings ++
      (visits depth frame).map fun v => v.1.reading v.2 true := by
  match frame with
  | .node f calls =>
    rw [collectStrictTargets] at h
    obtain ⟨⟨⟩, -, h⟩ := bind_ok_cases h
    have hrecorded : f.kind.recorded.recorded = f.kind.recorded := by cases f.kind <;> rfl
    rw [readings_strictAll calls h, StrictCall.record, visits]
    simp [TraceResult.readings, CallTarget.reading, StrictCall.target, StrictCall.reading,
      hrecorded]

theorem readings_strictAll {result result' : TraceResult} {depth : Nat} {parentStorage : String}
    (frames : List (Rose StrictCall))
    (h : collectStrictCalls frames result depth parentStorage = .ok result') :
    result'.readings = result.readings ++
      (visitsAll depth frames).map fun v => v.1.reading v.2 true := by
  match frames with
  | [] =>
    obtain rfl := Except.ok.inj h
    exact (append_nil _).symm
  | frame :: rest =>
    rw [collectStrictCalls] at h
    obtain ⟨middle, hfirst, h⟩ := bind_ok_cases h
    rw [readings_strictAll rest h, readings_strict frame hfirst, visitsAll, map_append,
      append_assoc]

end

/-- On a tree both readers accept, they record the same targets exactly if no frame is a
`SELFDESTRUCT` and none failed. -/
theorem readers_agree_iff (root : Rose StrictCall) {payload : Rose StrictCall}
    {seen strict : TraceResult}
    (hseen : parseCallTraceResult (lenient root) = .ok seen)
    (hstrict : parseStrictCallTrace root = .ok (payload, strict)) :
    seen.readings = strict.readings ↔
      ∀ v ∈ visits 0 root, v.1.kind ≠ .selfDestruct ∧ v.1.error = "" := by
  rw [parseCallTraceResult] at hseen
  split at hseen
  case isFalse => cases hseen
  obtain ⟨result, hcollect, hpayload⟩ := bind_ok_cases hstrict
  cases hpayload
  rw [readings_lenient root hseen, readings_strict root hcollect, append_cancel_left_eq]
  constructor
  · intro heq
    -- no frame was left out, so the filter is the whole walk
    have hall : ∀ v ∈ visits 0 root, (v.1.kind != .selfDestruct) = true :=
      length_filter_eq_length_iff.mp (by rw [← length_map, heq, length_map])
    rw [filter_eq_self.mpr hall, map_inj_left] at heq
    exact fun v hv => ⟨by simpa using hall v hv, by simpa [StrictCall.reading] using heq v hv⟩
  · intro hall
    rw [filter_eq_self.mpr fun v hv => by simpa using (hall v hv).1, map_inj_left]
    exact fun v hv => by rw [(hall v hv).2]; rfl

def account : String := "0x1111111111111111111111111111111111111111"

def router : String := "0x2222222222222222222222222222222222222222"

def library : String := "0x3333333333333333333333333333333333333333"

def token : String := "0x4444444444444444444444444444444444444444"

def pair : String := "0x5555555555555555555555555555555555555555"

def receipt : String := "0x6666666666666666666666666666666666666666"

/-- A call of a router that runs code of a library in its own place and asks a token for a
balance there, and then deploys a pair, which has the token deploy a receipt. -/
def swap : Rose StrictCall :=
  .node { kind := .call, fromAddr := account, toAddr := router, input := "0x38ed1739" }
    [.node { kind := .delegateCall, fromAddr := router, toAddr := library }
      [.node
        { kind := .staticCall, fromAddr := router, toAddr := token, input := "0x70a08231" } []],
    .node { kind := .callCode, fromAddr := router, toAddr := library } [],
    .node { kind := .create2, fromAddr := router, toAddr := pair, value := "0x10" }
      [.node { kind := .call, fromAddr := pair, toAddr := token }
        [.node { kind := .create, fromAddr := token, toAddr := receipt } []]]]

/-- Frames of every kind but `SELFDESTRUCT`, four deep, are read alike. -/
theorem swap_read_alike :
    ∃ seen strict, parseCallTraceResult (lenient swap) = .ok seen ∧
      parseStrictCallTrace swap = .ok (swap, strict) ∧
      strict.callTargets.map (·.depth) = [0, 1, 2, 1, 1, 2, 3] ∧
      seen.readings = strict.readings := by
  obtain ⟨seen, hseen, -⟩ := exists_ok_of_any (x := parseCallTraceResult (lenient swap))
    (q := fun _ => true) (by decide +kernel)
  have hstrict : parseStrictCallTrace swap = .ok (swap, _) := rfl
  refine ⟨seen, _, hseen, hstrict, rfl, (readers_agree_iff swap hseen hstrict).mpr ?_⟩
  simp [swap, visits, visitsAll]

/-- A creation whose code destroys the contract again and pays out to an account. -/
def payout : Rose StrictCall :=
  .node { kind := .create, toAddr := account }
    [.node { kind := .selfDestruct, fromAddr := account, toAddr := account } []]

theorem payout_read_apart :
    (parseCallTraceResult (lenient payout)).map (·.callTargets.length) = .ok 1 ∧
      (parseStrictCallTrace payout).map (·.2.callTargets.length) = .ok 2 := ⟨rfl, rfl⟩

end PrivacySuite.Tracer
