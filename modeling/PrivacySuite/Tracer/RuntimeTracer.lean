import PrivacySuite.Go.Json
import PrivacySuite.Tracer.Trace

/-!
# The runtime tracer

`internal/tracer/runtime_tracer.go`: the `debug_traceCall` requests the proxy
asks the node before it forwards a call or a transaction. A request is the call
object and the block it is traced at. Two ways of building the object exist: from
four extracted strings (`traceCallRequest`), and from the client's whole object
(`traceCallObjectRequest`). The first keeps four fields and no other.
-/

namespace PrivacySuite.Tracer

open Go

/-- The call object and the block of one `debug_traceCall`. -/
structure TraceRequest where
  callObj : List (String × Json)
  block : Json

/-- The block the node is asked at: a missing or empty one is `"latest"`. -/
def blockOrLatest : Json → Json
  | .null => .str "latest"
  | .str s => if s = "" then .str "latest" else .str s
  | block => block

def traceCallObjectRequest (callObj : List (String × Json)) (blockParam : Json) : TraceRequest where
  callObj := callObj
  block := blockOrLatest blockParam

def traceCallRequest (fromAddr toAddr data value : String) (blockParam : Json) : TraceRequest :=
  traceCallObjectRequest
    (textEntry "from" fromAddr ++ textEntry "to" toAddr ++ textEntry "data" data ++
      textEntry "value" value) blockParam

/-- `cacheKey`, before hashing. -/
def cacheKey (fromAddr toAddr data value block : String) : String :=
  fromAddr ++ "|" ++ toAddr ++ "|" ++ data ++ "|" ++ value ++ "|" ++ block

/-- An entry of the trace cache: what `TraceTransaction` read from an answer of the
node, as the node was then. Nothing else is ever stored. -/
structure CachedTrace where
  fromAddr : String
  toAddr : String
  data : String
  value : String
  node : TraceRequest → Except String CallFrame
  result : TraceResult
  answered : (node (traceCallRequest fromAddr toAddr data value (.str "latest")) >>=
    parseCallTraceResult) = .ok result

def CachedTrace.key (entry : CachedTrace) : String :=
  cacheKey entry.fromAddr entry.toAddr entry.data entry.value "latest"

/-- The tracer, the entries of its cache that have not expired and the node behind it,
at the moment of a request. -/
structure RuntimeTracer where
  enabled : Bool := true
  cache : List CachedTrace := []
  debugTraceCall : TraceRequest → Except String CallFrame
  getCode : String → Except String String

/-- A string block parameter is trimmed and lowered; any other is kept. -/
def normalizeBlockParam : Json → Json
  | .str s => .str (trimLower s)
  | block => block

/-- The request `TraceTransaction` makes or remembers. -/
def transactionRequest (fromAddr toAddr data value : String) : TraceRequest :=
  traceCallRequest (trimLower fromAddr) (trimLower toAddr) (trimLower data) (trimSpace value)
    (.str "latest")

def uncachedRequest (fromAddr toAddr data value : String) (blockParam : Json) : TraceRequest :=
  traceCallRequest (trimLower fromAddr) (trimLower toAddr) (trimLower data) (trimSpace value)
    (normalizeBlockParam blockParam)

namespace RuntimeTracer

variable (rt : RuntimeTracer)

def traceCall (request : TraceRequest) : Except String TraceResult := do
  let frame ← rt.debugTraceCall request
  parseCallTraceResult frame

def hasCode (address : String) : Except String Bool := do
  let code ← rt.getCode address
  return trimSpace code != "" && trimSpace code != "0x" && trimSpace code != "0X"

/-- From the cache, else from the node. -/
def traceTransaction (fromAddr toAddr data value : String) : Except String (Option TraceResult) :=
  if rt.enabled = false then .ok none
  else
    match rt.cache.find? (·.key == cacheKey (trimLower fromAddr) (trimLower toAddr)
        (trimLower data) (trimSpace value) "latest") with
    | some cached => .ok (some cached.result)
    | none => (rt.traceCall (transactionRequest fromAddr toAddr data value)).map some

def traceTransactionUncached (fromAddr toAddr data value : String) (blockParam : Json) :
    Except String (Option TraceResult) :=
  if rt.enabled = false then .ok none
  else (rt.traceCall (uncachedRequest fromAddr toAddr data value blockParam)).map some

end RuntimeTracer

end PrivacySuite.Tracer
