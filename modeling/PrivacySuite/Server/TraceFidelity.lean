import PrivacySuite.Server.SendAuthorization

/-!
# What is traced and what is executed

A trace authorizes a request only if the node executes what was traced. The gates
rebuild the traced call object: a creation-shaped read keeps the client's whole
object, every other route keeps sender, recipient, call data and value, and drops
gas, fees, access list and authorization list.

`traced_forward_faithful_iff` says exactly which forwarded requests execute what
was traced. A raw transaction never does, since it always carries a gas limit.
-/

namespace PrivacySuite.Server

open Go Phase Rbac Tracer List

/-! ## What an execution depends on -/

/-- A member of a call object as the node reads it: `null` and blank text are
absent, and hexadecimal text has no case. -/
def fieldValue : Option Json → Option Json
  | none => none
  | some .null => none
  | some (.str s) => if trimLower s = "" then none else some (.str (trimLower s))
  | some v => some v

/-- The recipient; the spellings of a creation name none. -/
def recipientValue (v : Option Json) : Option Json :=
  match fieldValue v with
  | some (.str s) => if isCreationTo s then none else some (.str s)
  | other => other

def payloadValue (callObj : List (String × Json)) : Option Json :=
  (fieldValue (callObj.lookup "data")).orElse fun _ => fieldValue (callObj.lookup "input")

def accessListValue (v : Option Json) : Option Json :=
  match fieldValue v with
  | some (.arr []) => none
  | other => other

def creationNonce (recipient nonce : Option Json) : Option Json :=
  match recipient with
  | none => nonce
  | some _ => none

@[ext]
structure Execution where
  sender : Option Json
  recipient : Option Json
  callData : Option Json
  value : Option Json
  gas : Option Json
  gasPrice : Option Json
  maxFeePerGas : Option Json
  maxPriorityFeePerGas : Option Json
  accessList : Option Json
  authorizationList : Option Json
  /-- Only a creation depends on the nonce. -/
  nonce : Option Json

def execution (callObj : List (String × Json)) : Execution where
  sender := fieldValue (callObj.lookup "from")
  recipient := recipientValue (callObj.lookup "to")
  callData := payloadValue callObj
  value := fieldValue (callObj.lookup "value")
  gas := fieldValue (callObj.lookup "gas")
  gasPrice := fieldValue (callObj.lookup "gasPrice")
  maxFeePerGas := fieldValue (callObj.lookup "maxFeePerGas")
  maxPriorityFeePerGas := fieldValue (callObj.lookup "maxPriorityFeePerGas")
  accessList := accessListValue (callObj.lookup "accessList")
  authorizationList := fieldValue (callObj.lookup "authorizationList")
  nonce :=
    creationNonce (recipientValue (callObj.lookup "to")) (fieldValue (callObj.lookup "nonce"))

def callObject (params : List Json) : List (String × Json) := (firstObject params).getD []

def namedBlock (params : List Json) : Json :=
  match (params[1]? : Option Json) with
  | none => .str "latest"
  | some .null => .str "latest"
  | some (.str s) => if trimLower s = "" then .str "latest" else .str (trimLower s)
  | some block => block

/-- The fee members of a signed transaction. -/
def SignedTx.feeEntries (tx : SignedTx) : List (String × Json) :=
  if tx.txType = .legacy ∨ tx.txType = .accessList then
    [("gasPrice", .str (hexQuantity tx.gasPrice))]
  else
    [("maxFeePerGas", .str (hexQuantity tx.gasFeeCap)),
     ("maxPriorityFeePerGas", .str (hexQuantity tx.gasTipCap))]

/-- A signed transaction as a call object. Its gas limit is always there. -/
def SignedTx.callObject (tx : SignedTx) (sender : String) : List (String × Json) :=
  ("gas", .str (hexQuantity tx.gas)) :: ("nonce", .str (hexQuantity tx.nonce)) ::
    (textEntry "from" sender ++ textEntry "to" (tx.params sender).toAddr ++
      textEntry "data" (tx.params sender).data ++ textEntry "value" (tx.params sender).value ++
      tx.feeEntries ++
      [("accessList", .arr (tx.accessList.map fun entry =>
          .obj [("address", .str entry.1), ("storageKeys", .arr (entry.2.map .str))])),
       ("authorizationList", .arr (tx.authorizationList.map .str))])

/-! ## The statement -/

/-- The request was forwarded after the tracer answered `request` for it, without
a signed preflight. -/
structure TracedForward (p : Processor) (scope : Option String)
    (processDebugTrace : ProcessRequest → Except ProcessError Forward) (req : ProcessRequest)
    (f : Forward) (request : TraceRequest) : Prop where
  method : canonicalizeMethod req.method ∈
    ["eth_call", "eth_estimateGas", "eth_sendTransaction", "eth_sendRawTransaction"]
  noPreflight : canonicalizeMethod req.method = "eth_sendRawTransaction" → p.nodeApprovals = none
  forwarded : process p scope processDebugTrace req = .ok f
  traced : ∃ trace, Evidence.traced request trace ∈ f.evidence

/-- What was traced is what is forwarded, and a read is traced at its block. -/
def ExecutesTrace (p : Processor) (req : ProcessRequest) (f : Forward) (request : TraceRequest) :
    Prop :=
  if canonicalizeMethod req.method = "eth_sendRawTransaction" then
    ∃ rawTxHex signed tx, extractRawTxHex f.params = .ok rawTxHex ∧
      decodeRawTransaction p.unmarshalBinary rawTxHex = .ok (signed, tx) ∧
      execution request.callObj = execution (signed.callObject tx.fromAddr)
  else
    execution request.callObj = execution (callObject f.params) ∧
      (canonicalizeMethod req.method ≠ "eth_sendTransaction" →
        request.block = namedBlock f.params)

/-- A member that is absent or text. -/
def isText : Option Json → Bool
  | none => true
  | some .null => true
  | some (.str _) => true
  | some _ => false

/-- The call data is text where `extractTxParams` looks for it. -/
def payloadKept (callObj : List (String × Json)) : Bool :=
  match callObj.lookup "data" with
  | some (.str s) => trimLower s != "" || (fieldValue (callObj.lookup "input")).isNone
  | none => isText (callObj.lookup "input")
  | some .null => isText (callObj.lookup "input")
  | some _ => false

/-- The members the four extracted strings leave out, beside the access list. -/
def droppedFields : List String :=
  ["gas", "gasPrice", "maxFeePerGas", "maxPriorityFeePerGas", "authorizationList"]

/-- Nothing an execution depends on is lost in the four extracted strings. -/
def fieldsKept (callObj : List (String × Json)) : Bool :=
  isText (callObj.lookup "from") && isText (callObj.lookup "value") && payloadKept callObj &&
    (accessListValue (callObj.lookup "accessList")).isNone &&
    droppedFields.all fun key => (fieldValue (callObj.lookup key)).isNone

/-- The requests whose trace is a trace of the whole request. -/
def TracedWhole (req : ProcessRequest) : Prop :=
  canonicalizeMethod req.method ≠ "eth_sendRawTransaction" ∧
    (getTargetAddress (canonicalizeMethod req.method) req.params ≠ "" →
      fieldsKept (callObject req.params) = true)

section Proof

variable {p : Processor} {scope : Option String}

/-! ## Members of the rebuilt object -/

@[simp] theorem fieldValue_none : fieldValue none = none := rfl
@[simp] theorem fieldValue_null : fieldValue (some .null) = none := rfl
@[simp] theorem fieldValue_bool (b : Bool) : fieldValue (some (.bool b)) = some (.bool b) := rfl
@[simp] theorem fieldValue_num (n : String) : fieldValue (some (.num n)) = some (.num n) := rfl
@[simp] theorem fieldValue_arr (items : List Json) :
    fieldValue (some (.arr items)) = some (.arr items) := rfl
@[simp] theorem fieldValue_obj (entries : List (String × Json)) :
    fieldValue (some (.obj entries)) = some (.obj entries) := rfl

theorem fieldValue_str (s : String) :
    fieldValue (some (.str s)) = if trimLower s = "" then none else some (.str (trimLower s)) := rfl

@[simp] theorem fieldValue_empty : fieldValue (some (.str "")) = none := by
  rw [fieldValue_str, if_pos trimLower_empty]

@[simp] theorem fieldValue_trimLower (s : String) :
    fieldValue (some (.str (trimLower s))) = fieldValue (some (.str s)) := by
  simp only [fieldValue_str, trimLower_trimLower]

@[simp] theorem fieldValue_trimSpace (s : String) :
    fieldValue (some (.str (trimSpace s))) = fieldValue (some (.str s)) := by
  simp only [fieldValue_str, trimLower_trimSpace]

variable {s method : String} {rt : RuntimeTracer} {tx : TxParams} {gate : SendGate}

theorem fieldValue_str_ne {v : Json} (hv : isText (some v) = false) :
    fieldValue (some (.str s)) ≠ some v := by
  rw [fieldValue_str]
  split
  · exact fun h => by cases h
  · rintro ⟨⟩
    cases hv

theorem lookup_textEntry_append (key k v : String) (rest : List (String × Json)) :
    (textEntry k v ++ rest).lookup key =
      if key = k ∧ v ≠ "" then some (.str v) else rest.lookup key := by
  by_cases hv : v = ""
  · simp [textEntry, hv]
  · by_cases hk : key = k
    · simp [textEntry, hv, hk]
    · simp [textEntry, hv, hk, lookup_cons, beq_false_of_ne hk]

/-- An empty member and a member that is left out read the same. -/
theorem fieldValue_ite_empty (s : String) :
    fieldValue (if s = "" then none else some (.str s)) = fieldValue (some (.str s)) := by
  by_cases h : s = ""
  · simp [h]
  · simp [h]

theorem lookup_traceCallRequest (a b c d key : String) (block : Json) :
    (traceCallRequest a b c d block).callObj.lookup key =
      if key = "from" ∧ a ≠ "" then some (.str a)
      else if key = "to" ∧ b ≠ "" then some (.str b)
      else if key = "data" ∧ c ≠ "" then some (.str c)
      else if key = "value" ∧ d ≠ "" then some (.str d) else none := by
  have hlast : (textEntry "value" d).lookup key =
      if key = "value" ∧ d ≠ "" then some (.str d) else none := by
    simpa using lookup_textEntry_append key "value" d []
  simp only [traceCallRequest, traceCallObjectRequest, append_assoc,
    lookup_textEntry_append, hlast]

theorem creationNonce_call {recipient : Option Json} (h : recipient ≠ none) (nonce : Option Json) :
    creationNonce recipient nonce = none := by
  cases recipient with
  | none => exact absurd rfl h
  | some _ => rfl

/-- The object built from four strings, with a recipient among them. -/
theorem execution_traceCallRequest (a b c d : String) (block : Json)
    (hto : recipientValue (some (.str b)) ≠ none) :
    execution (traceCallRequest a b c d block).callObj =
      { sender := fieldValue (some (.str a)), recipient := recipientValue (some (.str b)),
        callData := fieldValue (some (.str c)), value := fieldValue (some (.str d)),
        gas := none, gasPrice := none, maxFeePerGas := none, maxPriorityFeePerGas := none,
        accessList := none, authorizationList := none, nonce := none } := by
  have hrecipient : recipientValue (if b = "" then none else some (.str b)) =
      recipientValue (some (.str b)) := by
    simp only [recipientValue, fieldValue_ite_empty]
  ext1 <;>
    simp [execution, payloadValue, lookup_traceCallRequest, accessListValue, hrecipient,
      fieldValue_ite_empty, creationNonce_call hto]

/-! ## Reading a member as text -/

/-- Reading a member as text loses nothing exactly when it is absent or text. -/
theorem fieldValue_stringField_iff (callObj : List (String × Json)) (key : String) :
    fieldValue (some (.str ((stringField callObj key).getD ""))) =
      fieldValue (callObj.lookup key) ↔ isText (callObj.lookup key) = true := by
  unfold stringField
  cases callObj.lookup key with
  | none => simp [isText]
  | some v => cases v <;> simp [Json.asString, isText]

/-- The same for the call data, which has two names. -/
theorem fieldValue_payload_iff (callObj : List (String × Json)) :
    fieldValue (some (.str (((stringField callObj "data").orElse
      fun _ => stringField callObj "input").getD ""))) = payloadValue callObj ↔
      payloadKept callObj = true := by
  have hinput := fieldValue_stringField_iff callObj "input"
  unfold payloadValue payloadKept
  cases hdata : callObj.lookup "data" with
  | none => simpa [stringField, hdata] using hinput
  | some v =>
    cases v with
    | null => simpa [stringField, hdata, Json.asString] using hinput
    | str s =>
      by_cases hs : trimLower s = ""
      · cases fieldValue (callObj.lookup "input") <;>
          simp [stringField, hdata, Json.asString, fieldValue_str s, hs]
      · simp [stringField, hdata, Json.asString, fieldValue_str s, hs]
    | _ =>
      -- the text of `input` stands in for a `data` that is not text
      simp only [fieldValue_bool, fieldValue_num, fieldValue_arr, fieldValue_obj,
        Option.orElse_some, Bool.false_eq_true, iff_false]
      exact fieldValue_str_ne rfl

theorem recipientValue_trimLower (s : String) :
    recipientValue (some (.str (trimLower s))) = recipientValue (some (.str s)) := by
  simp only [recipientValue, fieldValue_trimLower]

theorem recipientValue_ne_none (h : isCreationTo s = false) :
    recipientValue (some (.str s)) ≠ none := by
  have hs : trimLower s ≠ "" := by
    intro hblank
    simp [isCreationTo, hblank] at h
  have hcanonical : isCreationTo (trimLower s) = false := by
    simpa only [isCreationTo, trimLower_trimLower] using h
  simp [recipientValue, fieldValue_str, hs, hcanonical]

/-! ## The two ways of building the traced object -/

/-- The call object rebuilt from its four extracted strings is the call object
exactly when nothing else is in it. -/
theorem execution_rebuilt_iff (callObj : List (String × Json)) (block : Json) {recipient : String}
    (hto : callObj.lookup "to" = some (.str recipient)) (hcall : isCreationTo recipient = false) :
    execution (uncachedRequest ((stringField callObj "from").getD "") recipient
      (((stringField callObj "data").orElse fun _ => stringField callObj "input").getD "")
      ((stringField callObj "value").getD "") block).callObj = execution callObj ↔
      fieldsKept callObj = true := by
  have hrecipient := recipientValue_ne_none hcall
  rw [uncachedRequest, execution_traceCallRequest _ _ _ _ _
    (by rw [recipientValue_trimLower]; exact hrecipient)]
  simp only [fieldValue_trimLower, fieldValue_trimSpace, recipientValue_trimLower,
    Execution.ext_iff, execution, hto, creationNonce_call hrecipient, fieldValue_stringField_iff,
    fieldValue_payload_iff, fieldsKept, droppedFields, Bool.and_eq_true, all_cons,
    all_nil, Option.isNone_iff_eq_none, true_and, and_true, eq_comm (a := none)]
  tauto

theorem execution_eraseTo {callObj : List (String × Json)}
    (hto : recipientValue (callObj.lookup "to") = none) :
    execution (eraseKey callObj "to") = execution callObj := by
  have herased : (eraseKey callObj "to").lookup "to" = none := by
    rw [eraseKey, lookup_eq_none_iff]
    intro entry hentry
    have hkept : entry.1 ≠ "to" := of_decide_eq_true (mem_filter.mp hentry).2
    exact bne_iff_ne.mpr hkept.symm
  have hnone : recipientValue none = none := rfl
  ext1 <;> simp [execution, payloadValue, lookup_eraseKey, herased, hnone, hto]

/-! ## The block of a read -/

variable {block : Json} {params : List Json} {req : ProcessRequest} {request : TraceRequest}
  {trace : TraceResult} {f : Forward}
  {processDebugTrace : ProcessRequest → Except ProcessError Forward}

theorem blockOrLatest_blockOfString {v : String} (h : blockOfString v = .ok block) :
    block = if trimLower v = "" then .null else .str (trimLower v) := by
  unfold blockOfString at h
  split_ifs at h ⊢ <;> cases h <;> rfl

theorem blockOfObject_ok {entries : List (String × Json)} (h : blockOfObject entries = .ok block) :
    block = .obj entries := by
  unfold blockOfObject at h
  split at h
  · cases h
  · cases h
  all_goals
    split_ifs at h
    cases h
    rfl

theorem blockOrLatest_extracted (h : extractEthCallBlockParam params = .ok block) :
    blockOrLatest block = namedBlock params ∧
      blockOrLatest (normalizeBlockParam block) = namedBlock params := by
  unfold extractEthCallBlockParam at h
  unfold namedBlock
  generalize (params[1]? : Option Json) = second at h ⊢
  match second with
  | none | some .null => cases h; exact ⟨rfl, rfl⟩
  | some (.str v) =>
    obtain rfl := blockOrLatest_blockOfString h
    by_cases hv : trimLower v = "" <;> simp [hv, blockOrLatest, normalizeBlockParam]
  | some (.obj entries) =>
    obtain rfl := blockOfObject_ok h
    exact ⟨rfl, rfl⟩
  | some (.bool _) | some (.num _) | some (.arr _) => cases h

/-! ## The read gate -/

/-- What the read gate traced, and on what shape. -/
theorem validateEthCall_traced {targetAddr pinned resolvedOrgID : String} {read : List Evidence}
    (h : validateEthCallWithTracingInOrg p req targetAddr pinned resolvedOrgID = .ok read)
    (htraced : Evidence.traced request trace ∈ read) :
    ∃ block, extractEthCallBlockParam req.params = .ok block ∧
      request = readRequest req targetAddr block ∧
      (targetAddr = "" → classifyCallShape req.params = .creation) := by
  obtain ⟨tracing, htracing, h⟩ := bind_ok_cases h
  cases tracing with
  | none =>
    obtain rfl := Except.ok.inj h
    cases htraced
  | some pair =>
    obtain ⟨rt, validator⟩ := pair
    obtain ⟨block, hshape, h⟩ := bind_ok_cases h
    obtain ⟨user, -, h⟩ := bind_ok_cases h
    obtain ⟨-, -, h⟩ := bind_ok_cases h
    obtain ⟨⟨orgs, deploy⟩, -, h⟩ := bind_ok_cases h
    obtain ⟨trace', -, h⟩ := bind_ok_cases h
    obtain ⟨opts, -, h⟩ := bind_ok_cases h
    obtain ⟨result, -, h⟩ := bind_ok_cases h
    obtain ⟨-, -, h⟩ := bind_ok_cases h
    obtain rfl := Except.ok.inj h
    refine ⟨block, ?_, ?_, ?_⟩
    · obtain ⟨-, -, hshape⟩ := bind_ok_cases hshape
      obtain ⟨block', hblock, hshape⟩ := bind_ok_cases hshape
      obtain ⟨-, -, hshape⟩ := bind_ok_cases hshape
      obtain ⟨-, -, hshape⟩ := bind_ok_cases hshape
      obtain rfl := Except.ok.inj hshape
      exact orFail_ok hblock
    · simp only [mem_cons, Evidence.traced.injEq, not_mem_nil, or_false,
        reduceCtorEq] at htraced
      exact htraced.1
    · intro hempty
      by_contra hshape
      unfold readTracing at htracing
      rw [if_pos hempty, if_pos hshape] at htracing
      split at htracing <;> cases htracing

/-! ## The routes -/

/-- A target of a call or a send is the recipient in its call object. -/
theorem target_cases (hmethod : method ∈ ["eth_call", "eth_estimateGas", "eth_sendTransaction"])
    (h : getTargetAddress method params ≠ "") :
    ∃ callObj recipient, firstObject params = some callObj ∧
      callObj.lookup "to" = some (.str recipient) ∧ isCreationTo recipient = false := by
  cases params with
  | nil => exact absurd rfl h
  | cons first rest =>
    have hnamed : ∃ recipient, first.asObject.bind (stringField · "to") = some recipient ∧
        isCreationTo recipient = false := by
      by_contra hnone
      apply h
      simp only [mem_cons, not_mem_nil, or_false] at hmethod
      cases hfield : first.asObject.bind (stringField · "to") with
      | none => rcases hmethod with rfl | rfl | rfl <;> simp [getTargetAddress, hfield]
      | some recipient =>
        have hcreation : isCreationTo recipient = true := by
          by_contra hcall
          exact hnone ⟨recipient, hfield, Bool.not_eq_true _ ▸ hcall⟩
        rcases hmethod with rfl | rfl | rfl <;> simp [getTargetAddress, hfield, hcreation]
    obtain ⟨recipient, hfield, hcall⟩ := hnamed
    obtain ⟨callObj, hobj, hstring⟩ := Option.bind_eq_some_iff.mp hfield
    obtain ⟨v, hto, htext⟩ := Option.bind_eq_some_iff.mp hstring
    refine ⟨callObj, recipient, by simpa [firstObject] using hobj, ?_, hcall⟩
    cases v with
    | str s => rw [hto, Option.some.inj htext]
    | _ => cases htext

theorem execution_targeted_iff (block : Json)
    (hmethod : method ∈ ["eth_call", "eth_estimateGas", "eth_sendTransaction"])
    (htarget : getTargetAddress method params ≠ "") :
    execution (uncachedRequest (extractTxParams params).fromAddr (extractTxParams params).toAddr
      (extractTxParams params).data (extractTxParams params).value block).callObj =
        execution (callObject params) ↔ fieldsKept (callObject params) = true := by
  obtain ⟨callObj, recipient, hobj, hto, hcall⟩ := target_cases hmethod htarget
  have hstring : stringField callObj "to" = some recipient := by
    simp [stringField, hto, Json.asString]
  have hiff := execution_rebuilt_iff callObj block hto hcall
  simpa only [extractTxParams, callObject, hobj, hstring, Option.getD_some] using hiff

theorem recipientValue_creation (h : classifyCallShape params = .creation) :
    recipientValue ((callObject params).lookup "to") = none := by
  have hblank : ∀ s, isCreationTo s = true → recipientValue (some (.str s)) = none := by
    intro s hs
    have hcanonical : isCreationTo (trimLower s) = true := by
      simpa only [isCreationTo, trimLower_trimLower] using hs
    by_cases hempty : trimLower s = "" <;>
      simp [recipientValue, fieldValue_str, hempty, hcanonical]
  cases params with
  | nil => cases h
  | cons first rest =>
    cases hobj : first.asObject with
    | none => simp [classifyCallShape, hobj] at h
    | some callObj =>
      have hcallObj : callObject (first :: rest) = callObj := by
        simp [callObject, firstObject, hobj]
      rw [hcallObj]
      simp only [classifyCallShape, hobj] at h
      split_ifs at h
      generalize callObj.lookup "to" = v at h ⊢
      cases v with
      | none => rfl
      | some v =>
        cases v with
        | null => rfl
        | str s =>
          by_cases hs : isCreationTo s = true
          · exact hblank s hs
          · simp [hs] at h
        | bool _ | num _ | arr _ | obj _ => cases h

/-- A forwarded read executes what was traced exactly when its trace is whole. -/
theorem read_executes_iff (hmethod : req.method = "eth_call" ∨ req.method = "eth_estimateGas")
    (h : processStandard p scope req = .ok f)
    (htraced : Evidence.traced request trace ∈ f.evidence) :
    (execution request.callObj = execution (callObject f.params) ∧
      request.block = namedBlock f.params) ↔
      (getTargetAddress req.method req.params ≠ "" →
        fieldsKept (callObject req.params) = true) := by
  have hcatalog : isCatalogMethod req.method = true := by
    rcases hmethod with hm | hm <;> rw [hm] <;> decide +kernel
  have hnotSend : req.method ≠ "eth_sendTransaction" := by
    rcases hmethod with hm | hm <;> rw [hm] <;> decide
  have htargeted : req.method ∈ ["eth_call", "eth_estimateGas", "eth_sendTransaction"] := by
    rcases hmethod with hm | hm <;> simp [hm]
  have htarget : requestTarget p req = getTargetAddress req.method req.params := by
    rw [requestTarget, accessMethod, p.accessCtrl.registry.resolveMethodAlias_catalog hcatalog]
  obtain ⟨access, send, read, params, hsend, hread, hgates, hparams, hevidence⟩ :=
    processStandard_ok h
  -- the send gate has nothing to say about a read, and the parameters are kept
  have hnoSend : send.evidence = [] := by
    unfold validateWithTracing at hsend
    split at hsend
    · rw [← Except.ok.inj hsend]
    · rw [if_pos hnotSend] at hsend
      rw [← Except.ok.inj hsend]
  have hsame : f.params = req.params := by
    rw [sendGates, if_neg hnotSend] at hgates
    obtain ⟨-, rfl⟩ := Prod.mk.inj (Except.ok.inj hgates)
    rw [hparams]
    rcases hmethod with hm | hm <;> rw [hm] <;> rfl
  obtain ⟨pinned, hread⟩ := validateEthCallWithTracing_ok hread
  rw [hevidence, hnoSend, nil_append] at htraced
  obtain ⟨block, hblock, rfl, hshape⟩ := validateEthCall_traced hread htraced
  rw [htarget] at hshape ⊢
  obtain ⟨hwhole, hnormal⟩ := blockOrLatest_extracted hblock
  rw [hsame]
  by_cases hempty : getTargetAddress req.method req.params = ""
  · rw [readRequest, if_pos hempty]
    have hcreation := execution_eraseTo (recipientValue_creation (hshape hempty))
    exact ⟨fun _ hne => absurd hempty hne, fun _ => ⟨hcreation, hwhole⟩⟩
  · rw [readRequest, if_neg hempty]
    have hiff := execution_targeted_iff block htargeted hempty
    exact ⟨fun hexec _ => hiff.mp hexec.1, fun hkept => ⟨hiff.mpr (hkept hempty), hnormal⟩⟩

theorem execution_strip (params : List Json) :
    execution (callObject (extractAndStripVisibleTo params).2) = execution (callObject params) := by
  unfold extractAndStripVisibleTo
  split
  · split
    · rfl
    · simp [execution, payloadValue, callObject, firstObject, Json.asObject, lookup_eraseKey]
  · rfl

/-- The one request a traced transaction rests on. -/
theorem traceAndValidate_traced {validator : TraceValidator} {user : User}
    {memberships : List MembershipWithDetails}
    (h : traceAndValidate p rt validator user memberships tx = .ok gate)
    (htraced : Evidence.traced request trace ∈ gate.evidence) :
    request = transactionRequest tx.fromAddr tx.toAddr tx.data tx.value := by
  obtain ⟨trace', -, h⟩ := bind_ok_cases h
  obtain ⟨targets, -, h⟩ := bind_ok_cases h
  obtain rfl := Except.ok.inj h
  simp only [mem_cons, Evidence.traced.injEq, not_mem_nil, or_false,
    reduceCtorEq] at htraced
  exact htraced.1

/-- A send with a trace has a target, and is traced by its four strings. -/
theorem send_traced (hmethod : req.method = "eth_sendTransaction")
    (h : processStandard p scope req = .ok f)
    (htraced : Evidence.traced request trace ∈ f.evidence) :
    getTargetAddress "eth_sendTransaction" req.params ≠ "" ∧
      request = transactionRequest (extractTxParams req.params).fromAddr
        (extractTxParams req.params).toAddr (extractTxParams req.params).data
        (extractTxParams req.params).value := by
  obtain ⟨gate, hgate, hevidence, -⟩ := processStandard_send hmethod h
  rw [hevidence] at htraced
  unfold validateWithTracing at hgate
  split at hgate
  · obtain rfl := Except.ok.inj hgate
    cases htraced
  · rw [if_neg (not_not_intro hmethod)] at hgate
    by_cases hempty : getTargetAddress "eth_sendTransaction" req.params = ""
    · rw [if_pos hempty] at hgate
      obtain rfl := Except.ok.inj hgate
      cases htraced
    · refine ⟨hempty, ?_⟩
      rw [if_neg hempty] at hgate
      obtain ⟨⟨user, memberships⟩, -, hgate⟩ := bind_ok_cases hgate
      simp only [if_neg (toAddr_ne_of_target hempty)] at hgate
      obtain ⟨-, -, hgate⟩ := bind_ok_cases hgate
      split at hgate
      · -- a plain transfer is not traced
        obtain rfl := Except.ok.inj hgate
        simp at htraced
      · exact traceAndValidate_traced hgate htraced

/-- A forwarded send with a trace executes what was traced exactly when nothing
was dropped from it. -/
theorem send_executes_iff (hmethod : req.method = "eth_sendTransaction")
    (h : processStandard p scope req = .ok f)
    (htraced : Evidence.traced request trace ∈ f.evidence) :
    execution request.callObj = execution (callObject f.params) ↔
      (getTargetAddress "eth_sendTransaction" req.params ≠ "" →
        fieldsKept (callObject req.params) = true) := by
  obtain ⟨htarget, rfl⟩ := send_traced hmethod h htraced
  obtain ⟨-, -, -, hparams⟩ := processStandard_send hmethod h
  have hiff :=
    execution_targeted_iff (.str "latest") (show "eth_sendTransaction" ∈ _ by simp) htarget
  rw [hparams, execution_strip]
  exact ⟨fun hexec _ => hiff.mp hexec, fun hkept => hiff.mpr (hkept htarget)⟩

/-- A raw transaction without a preflight is traced by four strings. -/
theorem validateRawTransaction_traced (h : validateRawTransaction p rt req tx none = .ok gate)
    (htraced : Evidence.traced request trace ∈ gate.evidence) :
    request = transactionRequest tx.fromAddr tx.toAddr tx.data tx.value := by
  simp only [validateRawTransaction] at h
  split at h
  · split at h
    · obtain rfl := Except.ok.inj h
      simp at htraced
    · obtain ⟨validator, -, h⟩ := bind_ok_cases h
      obtain ⟨⟨user, memberships⟩, -, h⟩ := bind_ok_cases h
      exact traceAndValidate_traced h htraced
  · rename_i hto
    obtain ⟨⟨user, memberships⟩, -, h⟩ := bind_ok_cases h
    cases hvalidator : p.traceValidator with
    | none =>
      simp only [hvalidator] at h
      obtain rfl := Except.ok.inj h
      cases htraced
    | some validator =>
      simp only [hvalidator] at h
      obtain ⟨trace', -, h⟩ := bind_ok_cases h
      obtain ⟨targets, -, h⟩ := bind_ok_cases h
      obtain rfl := Except.ok.inj h
      simp only [mem_cons, Evidence.traced.injEq, not_mem_nil, or_false,
        reduceCtorEq] at htraced
      rw [htraced.1, uncachedRequest_latest, not_ne_iff.mp hto]

theorem trimLower_hexQuantity (n : Nat) : trimLower (hexQuantity n) ≠ "" := by
  have hlist : (hexQuantity n).toList = '0' :: 'x' :: Nat.toDigits 16 n := by
    simp [hexQuantity, String.toList_append]
  exact trimLower_ne_empty (trimSpace_ne_empty hlist (by decide))

theorem execution_signed_ne (signed : SignedTx) (sender a b c d : String) :
    execution (transactionRequest a b c d).callObj ≠ execution (signed.callObject sender) := by
  intro hexec
  have hgas := congrArg Execution.gas hexec
  simp [execution, transactionRequest, lookup_traceCallRequest, SignedTx.callObject,
    fieldValue_str, trimLower_hexQuantity] at hgas

theorem standard_executes_iff (h : TracedForward p scope processDebugTrace req f request)
    (hraw : canonicalizeMethod req.method ≠ "eth_sendRawTransaction") :
    ExecutesTrace p req f request ↔ TracedWhole req := by
  obtain ⟨trace, htraced⟩ := h.traced
  have hmethod : canonicalizeMethod req.method ∈
      ["eth_call", "eth_estimateGas", "eth_sendTransaction"] := by
    have hmem := h.method
    simp only [mem_cons, not_mem_nil, or_false] at hmem ⊢
    tauto
  have hforward := h.forwarded
  rw [process_standard hmethod] at hforward
  rw [ExecutesTrace, if_neg hraw, TracedWhole, and_iff_right hraw]
  by_cases hsend : canonicalizeMethod req.method = "eth_sendTransaction"
  · have hiff := send_executes_iff (by exact hsend) hforward htraced
    rw [hsend, and_iff_left (fun hne => absurd rfl hne)]
    exact hiff
  · have hread : canonicalizeMethod req.method = "eth_call" ∨
        canonicalizeMethod req.method = "eth_estimateGas" := by
      simp only [mem_cons, not_mem_nil, or_false] at hmethod
      tauto
    have hiff := read_executes_iff (by exact hread) hforward htraced
    rw [← hiff]
    exact ⟨fun hexec => ⟨hexec.1, hexec.2 hsend⟩, fun hexec => ⟨hexec.1, fun _ => hexec.2⟩⟩

theorem raw_not_executes (h : TracedForward p scope processDebugTrace req f request)
    (hraw : canonicalizeMethod req.method = "eth_sendRawTransaction") :
    ¬ ExecutesTrace p req f request := by
  obtain ⟨trace, htraced⟩ := h.traced
  have hforward := h.forwarded
  rw [process, if_pos hraw] at hforward
  obtain ⟨rt, raw, signed, tx, prepared, gate, -, -, -, hprepared, hgate, -, hevidence⟩ :=
    processRawTransaction_ok hforward
  rw [preparePreflight, h.noPreflight hraw] at hprepared
  obtain rfl := Except.ok.inj hprepared
  rw [hevidence] at htraced
  obtain rfl := validateRawTransaction_traced hgate htraced
  rw [ExecutesTrace, if_pos hraw]
  rintro ⟨raw', signed', tx', -, -, hexec⟩
  exact execution_signed_ne _ _ _ _ _ _ hexec

end Proof

/-- **Which forwarded requests execute what was traced.** Exactly those that are
not raw and, when they name a recipient, carry nothing an execution depends on
beyond sender, recipient, call data and value as text. Two such requests that rest
on one trace request agree in everything an execution depends on, and two such
reads in their block. -/
theorem traced_forward_faithful_iff (p : Processor) (scope : Option String)
    (processDebugTrace : ProcessRequest → Except ProcessError Forward) (req : ProcessRequest)
    (f : Forward) (request : TraceRequest)
    (h : TracedForward p scope processDebugTrace req f request) :
    (ExecutesTrace p req f request ↔ TracedWhole req) ∧
      ∀ p' scope' processDebugTrace' req' f',
        TracedForward p' scope' processDebugTrace' req' f' request →
        TracedWhole req → TracedWhole req' →
        execution (callObject f.params) = execution (callObject f'.params) ∧
          (canonicalizeMethod req.method ≠ "eth_sendTransaction" →
            canonicalizeMethod req'.method ≠ "eth_sendTransaction" →
            namedBlock f.params = namedBlock f'.params) := by
  refine ⟨?_, ?_⟩
  · by_cases hraw : canonicalizeMethod req.method = "eth_sendRawTransaction"
    · exact ⟨fun hexec => absurd hexec (raw_not_executes h hraw),
        fun hwhole => absurd hraw hwhole.1⟩
    · exact standard_executes_iff h hraw
  · intro p' scope' processDebugTrace' req' f' h' hwhole hwhole'
    have hexec := (standard_executes_iff h hwhole.1).mpr hwhole
    have hexec' := (standard_executes_iff h' hwhole'.1).mpr hwhole'
    rw [ExecutesTrace, if_neg hwhole.1] at hexec
    rw [ExecutesTrace, if_neg hwhole'.1] at hexec'
    exact ⟨hexec.1.symm.trans hexec'.1,
      fun hread hread' => (hexec.2 hread).symm.trans (hexec'.2 hread')⟩

/-! ## A gas limit -/

/-- The call of the granted contract again, with a gas limit. -/
def gasLimitedSend : ProcessRequest where
  userID := "did:dana"
  method := "eth_sendTransaction"
  params := [.obj [("from", .str "0xf1"), ("to", .str "0xA1"), ("data", .str "0x01"),
    ("gas", .str "0x9")]]

/-- A send forwarded after the tracer answered its four strings. -/
theorem tracedForward_send {p : Processor} (d : ProcessRequest → Except ProcessError Forward)
    (req : ProcessRequest) (hmethod : canonicalizeMethod req.method = "eth_sendTransaction")
    (h : (process p none d req).toOption.any
      (fun f => f.evidence.any fun e => match e with | .traced _ _ => true | _ => false) = true) :
    ∃ f, TracedForward p none d req f
      (transactionRequest (extractTxParams req.params).fromAddr (extractTxParams req.params).toAddr
        (extractTxParams req.params).data (extractTxParams req.params).value) := by
  obtain ⟨f, hforward, hany⟩ := exists_ok_of_any h
  obtain ⟨e, he, hkind⟩ := any_eq_true.mp hany
  cases e with
  | traced request trace =>
    have hstandard := hforward
    rw [process_standard (by simp [hmethod])] at hstandard
    have hrequest := (send_traced (by exact hmethod) hstandard he).2
    refine ⟨f, by simp [hmethod], fun hraw => ?_, hforward, trace, hrequest ▸ he⟩
    rw [hmethod] at hraw
    exact absurd hraw (by decide)
  | _ => cases hkind

theorem targetedSend_method : canonicalizeMethod targetedSend.method = "eth_sendTransaction" := by
  decide +kernel

theorem targetedSend_faithful :
    ∃ f request, TracedForward deployProcessor none noDebugTrace targetedSend f request ∧
      (ExecutesTrace deployProcessor targetedSend f request ↔ TracedWhole targetedSend) ∧
      TracedWhole targetedSend := by
  obtain ⟨f, h⟩ := tracedForward_send (p := deployProcessor) noDebugTrace targetedSend
    targetedSend_method (by decide +kernel)
  refine ⟨f, _, h, (traced_forward_faithful_iff _ _ _ _ _ _ h).1, ?_, fun _ => by decide +kernel⟩
  rw [targetedSend_method]
  decide

/-- Two sends that differ in their gas limit are authorized by one trace request,
which has no gas limit. -/
theorem gasLimited_authorized_by_other_trace :
    ∃ f f' request, TracedForward deployProcessor none noDebugTrace targetedSend f request ∧
      TracedForward deployProcessor none noDebugTrace gasLimitedSend f' request ∧
      ¬ ExecutesTrace deployProcessor gasLimitedSend f' request := by
  obtain ⟨f, h⟩ := tracedForward_send (p := deployProcessor) noDebugTrace targetedSend
    targetedSend_method (by decide +kernel)
  obtain ⟨f', h'⟩ := tracedForward_send (p := deployProcessor) noDebugTrace gasLimitedSend
    targetedSend_method (by decide +kernel)
  refine ⟨f, f', _, h, h', fun hexec => ?_⟩
  have hnotRaw : canonicalizeMethod gasLimitedSend.method ≠ "eth_sendRawTransaction" := by
    decide +kernel
  have hkept := ((standard_executes_iff h' hnotRaw).mp hexec).2 (by decide +kernel)
  exact absurd hkept (by decide +kernel)

end PrivacySuite.Server
