import PrivacySuite.Go.Strings
import PrivacySuite.Go.Phase

/-!
# Call traces

The `callTracer` result of a node and its flattening into the list of call
targets the trace validator judges. The flattening walks the call tree in
execution order, so the position of a target in the list is its position in the
execution; and it raises the two creation flags exactly when it lists a creation
(`parseCallTrace_flagsAgree`).
-/

namespace PrivacySuite.Tracer

open Go Phase

/-- The frame types of `callTracer`; any other text is kept as it is. -/
inductive CallKind where
  | call
  | callCode
  | delegateCall
  | staticCall
  | create
  | create2
  | selfDestruct
  | other (name : String)
  deriving DecidableEq, Repr

namespace CallKind

def name : CallKind → String
  | call => "CALL"
  | callCode => "CALLCODE"
  | delegateCall => "DELEGATECALL"
  | staticCall => "STATICCALL"
  | create => "CREATE"
  | create2 => "CREATE2"
  | selfDestruct => "SELFDESTRUCT"
  | other name => name

/-- The name in double quotes, for error texts. -/
def quoted (kind : CallKind) : String := "\"" ++ kind.name ++ "\""

def isCreate : CallKind → Bool
  | create | create2 => true
  | _ => false

def validRoot : CallKind → Bool
  | selfDestruct | other _ => false
  | _ => true

def validNested (kind : CallKind) : Bool := kind.validRoot || kind == selfDestruct

def requiresTarget : CallKind → Bool
  | call | callCode | delegateCall | staticCall => true
  | _ => false

end CallKind

/-- One call operation of a trace. `error` is empty on success. -/
structure CallTarget where
  kind : CallKind
  fromAddr : String := ""
  toAddr : String := ""
  depth : Nat := 0
  error : String := ""
  storageAddress : String := ""
  input : String := ""
  deriving DecidableEq, Repr

structure TraceResult where
  callTargets : List CallTarget := []
  hasCreate : Bool := false
  hasCreate2 : Bool := false
  deriving DecidableEq, Repr

/-- The creation flags say what the call targets say. -/
structure TraceResult.FlagsAgree (trace : TraceResult) : Prop where
  create : trace.hasCreate = true ↔ ∃ t ∈ trace.callTargets, t.kind = .create
  create2 : trace.hasCreate2 = true ↔ ∃ t ∈ trace.callTargets, t.kind = .create2

theorem TraceResult.FlagsAgree.isCreate {trace : TraceResult} (h : trace.FlagsAgree)
    {t : CallTarget} (ht : t ∈ trace.callTargets) (hcreate : t.kind.isCreate = true) :
    (trace.hasCreate || trace.hasCreate2) = true := by
  rw [Bool.or_eq_true, h.create, h.create2]
  cases hkind : t.kind with
  | create => exact .inl ⟨t, ht, hkind⟩
  | create2 => exact .inr ⟨t, ht, hkind⟩
  | _ => rw [hkind] at hcreate; cases hcreate

/-- A frame of the call tree, as the node reports it. -/
inductive CallFrame where
  | mk (kind : CallKind) (fromAddr toAddr error : String) (calls : List CallFrame)

def maxTraceDepth : Nat := 256

def traceDepthExceeded : String := "trace exceeds maximum depth (256)"

/-- The checks made on a frame before it is listed. -/
def checkFrame (kind : CallKind) (toAddr : String) (depth : Nat) : Except String Unit :=
  if maxTraceDepth < depth then .error traceDepthExceeded
  else if depth = 0 ∧ kind.validRoot = false then
    .error ("invalid root call frame type " ++ kind.quoted ++ " at depth " ++ depth.repr)
  else if depth ≠ 0 ∧ kind.validNested = false then
    .error ("invalid nested call frame type " ++ kind.quoted ++ " at depth " ++ depth.repr)
  else if kind.requiresTarget = true ∧ trimSpace toAddr = "" then
    .error ("invalid " ++ kind.name ++ " call frame at depth " ++ depth.repr ++
      ": missing target address")
  else .ok ()

/-- List a frame. A `SELFDESTRUCT` frame is walked through and not listed. -/
def TraceResult.add (result : TraceResult) (target : CallTarget) : TraceResult :=
  match target.kind with
  | .call | .callCode | .delegateCall | .staticCall =>
      { result with callTargets := result.callTargets ++ [target] }
  | .create => { result with hasCreate := true, callTargets := result.callTargets ++ [target] }
  | .create2 => { result with hasCreate2 := true, callTargets := result.callTargets ++ [target] }
  | .selfDestruct | .other _ => result

mutual

/-- List a frame, then the frames below it. -/
def extractCallTargets : CallFrame → TraceResult → Nat → Except String TraceResult
  | .mk kind fromAddr toAddr error calls, result, depth => do
      checkFrame kind toAddr depth
      extractCalls calls (result.add { kind, fromAddr, toAddr, depth, error }) (depth + 1)

def extractCalls : List CallFrame → TraceResult → Nat → Except String TraceResult
  | [], result, _ => .ok result
  | frame :: rest, result, depth => do
      let result ← extractCallTargets frame result depth
      extractCalls rest result depth

end

def CallFrame.kind : CallFrame → CallKind
  | .mk kind _ _ _ _ => kind

/-- `ParseCallTraceResult`, from the decoded root frame. -/
def parseCallTraceResult (frame : CallFrame) : Except String TraceResult :=
  if frame.kind.validRoot then extractCallTargets frame {} 0
  else .error ("failed to parse trace result: invalid root call frame type " ++ frame.kind.quoted)

theorem FlagsAgree.add {result : TraceResult} (h : result.FlagsAgree) (target : CallTarget) :
    (result.add target).FlagsAgree := by
  obtain ⟨hcreate, hcreate2⟩ := h
  unfold TraceResult.add
  constructor <;> cases hkind : target.kind <;>
    simp [hcreate, hcreate2, or_and_right, exists_or, hkind]

mutual

theorem extractCallTargets_flagsAgree (frame : CallFrame) {result result' : TraceResult}
    {depth : Nat} (h : result.FlagsAgree)
    (hrun : extractCallTargets frame result depth = .ok result') : result'.FlagsAgree := by
  match frame with
  | .mk kind fromAddr toAddr error calls =>
    rw [extractCallTargets] at hrun
    obtain ⟨-, -, hrun⟩ := bind_ok_cases hrun
    exact extractCalls_flagsAgree calls (FlagsAgree.add h _) hrun

theorem extractCalls_flagsAgree (frames : List CallFrame) {result result' : TraceResult}
    {depth : Nat} (h : result.FlagsAgree)
    (hrun : extractCalls frames result depth = .ok result') : result'.FlagsAgree := by
  match frames with
  | [] =>
    rw [extractCalls] at hrun
    exact Except.ok.inj hrun ▸ h
  | frame :: rest =>
    rw [extractCalls] at hrun
    obtain ⟨middle, hhead, hrun⟩ := bind_ok_cases hrun
    exact extractCalls_flagsAgree rest (extractCallTargets_flagsAgree frame h hhead) hrun

end

/-- A parsed trace raises the creation flags exactly for the creations it lists. -/
theorem parseCallTrace_flagsAgree {frame : CallFrame} {trace : TraceResult}
    (h : parseCallTraceResult frame = .ok trace) : trace.FlagsAgree := by
  unfold parseCallTraceResult at h
  split at h
  · exact extractCallTargets_flagsAgree frame ⟨by simp, by simp⟩ h
  · cases h

end PrivacySuite.Tracer
