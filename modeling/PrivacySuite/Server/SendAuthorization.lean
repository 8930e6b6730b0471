import PrivacySuite.Server.Processor

/-!
# Every forwarded transaction was traced

A transaction that goes to the node must rest on evidence: it is a plain value
transfer, or its trace was validated for the caller's active organizations; and a
sender named in an `eth_sendTransaction` must be linked to the caller.

`forwarded_authorized_iff` says exactly when this holds. It holds for every raw
transaction and for every `eth_sendTransaction` with a recipient. It fails for
every forwarded `eth_sendTransaction` without one: `validateWithTracing` leaves
on an empty target, before the branch that would trace a deployment and before
the sender check (`deployment_forwarded_untraced`).
-/

namespace PrivacySuite.Server

open Go Phase Rbac Tracer List

/-! ## What a forwarded transaction should rest on -/

section Statement

variable (p : Processor) (rt : RuntimeTracer) (validator : TraceValidator)

/-- The caller and their active memberships. -/
def SendCaller (userID : String) (user : User) (memberships : List MembershipWithDetails) : Prop :=
  p.accessCtrl.store.getUserByExternalID userID = .ok (some user) ∧
    p.accessCtrl.store.listActiveUserMembershipsWithDetails user.id = .ok memberships

/-- The preflight service answered for a raw transaction, which is given by its text and
what that decodes to. -/
def Preflight (raw : Option (String × SignedTx)) (signed : SignedTx) (prepared : Prepared) : Prop :=
  ∃ text approvals, raw = some (text, signed) ∧ p.nodeApprovals = some approvals ∧
    approvals.prepare p.unmarshalBinary text = .ok (signed, prepared)

/-- A trace of the transaction was obtained while the request was handled. -/
inductive TraceObtained (evidence : List Evidence) (preflight : Option (SignedTx × Prepared))
    (tx : TxParams) (trace : TraceResult) : Prop
  /-- The node answered the tracer, now or before under the same key. -/
  | tracer (hanswer : rt.traceTransaction tx.fromAddr tx.toAddr tx.data tx.value = .ok (some trace))
      (hseen : Evidence.traced (transactionRequest tx.fromAddr tx.toAddr tx.data tx.value) trace ∈
        evidence)
  /-- The node answered the tracer now, for a transaction without a recipient. -/
  | deployment (hto : tx.toAddr = "")
      (hanswer : rt.traceTransactionUncached tx.fromAddr "" tx.data tx.value (.str "latest") =
        .ok (some trace))
      (hseen : Evidence.traced (transactionRequest tx.fromAddr tx.toAddr tx.data tx.value) trace ∈
        evidence)
  /-- The signed preflight came with it. -/
  | preflight (signed : SignedTx) (prepared : Prepared)
      (hpreflight : preflight = some (signed, prepared)) (htrace : prepared.trace = some trace)
      (hseen : Evidence.preflighted signed prepared ∈ evidence)

/-- The validator of a send gate: a preflight brings its own view of the code. -/
def gateValidator : Option (SignedTx × Prepared) → TraceValidator
  | none => validator
  | some (_, prepared) => { validator with codeFetcher := some prepared.getCodeHash }

/-- The options a preflight adds to those of the caller's grants. -/
def preflightOptions : Option (SignedTx × Prepared) → List TraceOption
  | none => []
  | some (_, prepared) =>
      [withPreflightCreations prepared.freshCreations,
       withPreflightValueRecipients prepared.noCodeRecipients]

/-- `ValidateTrace` allowed the trace for the caller's active organizations, with the
deploy claim and the grants their memberships give. -/
def TraceAllowed (user : User) (memberships : List MembershipWithDetails)
    (preflight : Option (SignedTx × Prepared)) (toAddr : String) (trace : TraceResult) : Prop :=
  ∃ opts, intraOrgGrantTraceOptions p user.id toAddr (membershipOrgs memberships) = .ok opts ∧
    TraceOutcome.Allows (validateTrace (gateValidator validator preflight)
      (membershipOrgs memberships) (membershipsHaveDeployClaim p.accessCtrl.store memberships)
      (some trace) (opts ++ preflightOptions preflight))

/-- The grounds on which a transaction may go to the node. `raw` is the raw
transaction, if there is one. -/
inductive Authorized (userID : String) (evidence : List Evidence)
    (raw : Option (String × SignedTx)) (tx : TxParams) : Prop
  /-- It carries no call data, and its recipient was reported to have no code. -/
  | noCode (hdata : isSimpleValueTransfer tx.data = true)
      (hseen : Evidence.noCode tx.toAddr ∈ evidence) (hcode : rt.hasCode tx.toAddr = .ok false)
  /-- A signed preflight proved it a plain value transfer. -/
  | plainTransfer (signed : SignedTx) (prepared : Prepared)
      (hpreflight : Preflight p raw signed prepared)
      (hseen : Evidence.preflighted signed prepared ∈ evidence)
      (hplain : prepared.plainValueTransfer = true)
  /-- Its trace was validated for the caller's active organizations. -/
  | traced (user : User) (memberships : List MembershipWithDetails)
      (preflight : Option (SignedTx × Prepared)) (trace : TraceResult)
      (hcaller : SendCaller p userID user memberships)
      (hpreflight : ∀ signed prepared, preflight = some (signed, prepared) →
        Preflight p raw signed prepared)
      (hobtained : TraceObtained rt evidence preflight tx trace)
      (hseen : Evidence.allowed (membershipOrgs memberships) trace ∈ evidence)
      (hallowed : TraceAllowed p validator user memberships preflight tx.toAddr trace)

/-- The sender is one of the caller's linked addresses. -/
def SenderLinked (userID fromAddr : String) : Prop :=
  ∃ addresses, p.accessCtrl.store.getLinkedEthAddresses userID = .ok addresses ∧
    ∃ a ∈ addresses, toLower a = toLower fromAddr

/-- What should hold of a forwarded transaction, judged on what is forwarded. -/
def ForwardAuthorized (req : ProcessRequest) (f : Forward) : Prop :=
  if canonicalizeMethod req.method = "eth_sendTransaction" then
    Authorized p rt validator req.userID f.evidence none (extractTxParams f.params) ∧
      ((extractTxParams f.params).fromAddr ≠ "" →
        SenderLinked p req.userID (extractTxParams f.params).fromAddr)
  else
    ∃ rawTxHex signed tx, extractRawTxHex f.params = .ok rawTxHex ∧
      decodeRawTransaction p.unmarshalBinary rawTxHex = .ok (signed, tx) ∧
      Authorized p rt validator req.userID f.evidence (some (rawTxHex, signed)) tx

end Statement

section Proof

variable {p : Processor} {rt : RuntimeTracer} {validator : TraceValidator} {scope : Option String}

/-! ## Pieces of the gates -/

theorem someOrRefuse_ok {α : Type} {x : Except String (Option α)} {statusCode : Nat}
    {message : String} {a : α} (h : someOrRefuse x statusCode message = .ok a) :
    x = .ok (some a) := by
  unfold someOrRefuse at h
  split at h
  · rw [Except.ok.inj h]
  · cases h

variable {u : Unit} {extra : List TraceOption} {trace : TraceResult} {targets : List CreateTarget}
  {user : User} {memberships : List MembershipWithDetails} {externalID : String}
  {signed' : SignedTx}

theorem onlyIf_refused {q : Prop} [Decidable q] {e : ProcessError}
    (h : onlyIf q (.error e) = .ok u) :
    ¬ q := by
  intro hq
  cases onlyIf_ok h hq

variable {userID targetAddr raw : String} {orgs : List String} {userHasDeploy : Bool}
  {tx : TxParams} {gate : SendGate} {req : ProcessRequest} {f : Forward} {signed : SignedTx}
  {prepared : Prepared}

theorem validateSendTrace_ok {preflight : Option (SignedTx × Prepared)}
    (h : validateSendTrace p (gateValidator validator preflight) user.id targetAddr
      (membershipOrgs memberships) (membershipsHaveDeployClaim p.accessCtrl.store memberships)
      (preflightOptions preflight) trace = .ok targets) :
    TraceAllowed p validator user memberships preflight targetAddr trace := by
  obtain ⟨opts, hopts, hrest⟩ := bind_ok_cases h
  obtain ⟨result, hresult, hjudge⟩ := bind_ok_cases hrest
  refine ⟨opts, orFail_ok hopts, result, orFail_ok hresult, ?_⟩
  by_contra hdenied
  rw [if_neg hdenied] at hjudge
  cases hjudge

theorem sendIdentity_ok {userText membershipText : String}
    (h : sendIdentity p userID userText membershipText = .ok (user, memberships)) :
    SendCaller p userID user memberships := by
  obtain ⟨user', huser, hrest⟩ := bind_ok_cases h
  obtain ⟨memberships', hmemberships, hpair⟩ := bind_ok_cases hrest
  obtain ⟨rfl, rfl⟩ := Prod.mk.inj (Except.ok.inj hpair)
  exact ⟨someOrRefuse_ok huser, orFail_ok hmemberships⟩

theorem checkSendSender_ok {fromAddr : String} (h : checkSendSender p userID fromAddr = .ok u)
    (hne : fromAddr ≠ "") : SenderLinked p userID fromAddr := by
  obtain ⟨addresses, haddresses, hmatch⟩ := bind_ok_cases (onlyIf_ok h hne)
  refine ⟨addresses, orFail_ok haddresses, ?_⟩
  have hany : addresses.any (fun a => toLower a == toLower fromAddr) = true :=
    Bool.not_eq_false _ ▸ onlyIf_refused hmatch
  obtain ⟨a, ha, heq⟩ := any_eq_true.mp hany
  exact ⟨a, ha, beq_iff_eq.mp heq⟩

theorem isPlainTransfer_true (h : isPlainTransfer rt tx = true) :
    isSimpleValueTransfer tx.data = true ∧ rt.hasCode tx.toAddr = .ok false := by
  rw [isPlainTransfer, Bool.and_eq_true] at h
  refine ⟨h.1, ?_⟩
  have hcode := h.2
  split at hcode
  · rename_i hasCode hlookup
    rw [hlookup, (Bool.not_eq_true' hasCode).mp hcode]
  · cases hcode

/-! ## The send gates -/

/-- A deployment is traced as a call without a recipient, whichever function asks. -/
theorem uncachedRequest_latest (fromAddr data value : String) :
    uncachedRequest fromAddr "" data value (.str "latest") =
      transactionRequest fromAddr "" data value := by
  have hlatest : trimLower "latest" = "latest" := by decide +kernel
  rw [uncachedRequest, transactionRequest, normalizeBlockParam, hlatest]

theorem validateDeployWithTracing_ok {raw : Option (String × SignedTx)}
    (h : validateDeployWithTracing p rt validator user.id tx (membershipOrgs memberships)
      (membershipsHaveDeployClaim p.accessCtrl.store memberships) = .ok gate)
    (hcaller : SendCaller p externalID user memberships) (hto : tx.toAddr = "") :
    Authorized p rt validator externalID gate.evidence raw tx := by
  obtain ⟨trace, htrace, hrest⟩ := bind_ok_cases h
  obtain ⟨targets, hvalid, hgate⟩ := bind_ok_cases hrest
  obtain rfl := Except.ok.inj hgate
  have hallowed : TraceAllowed p validator user memberships none tx.toAddr trace :=
    hto ▸ validateSendTrace_ok hvalid
  refine .traced user memberships none trace hcaller nofun ?_ (by simp) hallowed
  exact .deployment hto (someOrRefuse_ok htrace) (by simp [uncachedRequest_latest, hto])

theorem traceAndValidate_ok {raw : Option (String × SignedTx)}
    (h : traceAndValidate p rt validator user memberships tx = .ok gate)
    (hcaller : SendCaller p externalID user memberships) :
    Authorized p rt validator externalID gate.evidence raw tx := by
  obtain ⟨trace, htrace, hrest⟩ := bind_ok_cases h
  obtain ⟨targets, hvalid, hgate⟩ := bind_ok_cases hrest
  obtain rfl := Except.ok.inj hgate
  exact .traced user memberships none trace hcaller nofun
    (.tracer (someOrRefuse_ok htrace) (by simp)) (by simp) (validateSendTrace_ok hvalid)

/-- A targeted send that passed its gate is authorized, and so is its sender. -/
theorem validateSend_ok (h : validateSend p rt validator req = .ok gate)
    (hto : (extractTxParams req.params).toAddr ≠ "") :
    Authorized p rt validator req.userID gate.evidence none (extractTxParams req.params) ∧
      ((extractTxParams req.params).fromAddr ≠ "" →
        SenderLinked p req.userID (extractTxParams req.params).fromAddr) := by
  obtain ⟨⟨user, memberships⟩, hidentity, hrest⟩ := bind_ok_cases h
  simp only [if_neg hto] at hrest
  obtain ⟨u, hsender, hgate⟩ := bind_ok_cases hrest
  refine ⟨?_, checkSendSender_ok hsender⟩
  split at hgate
  · rename_i hplain
    obtain rfl := Except.ok.inj hgate
    obtain ⟨hdata, hcode⟩ := isPlainTransfer_true hplain
    exact .noCode hdata (by simp) hcode
  · exact traceAndValidate_ok hgate (sendIdentity_ok hidentity)

/-! ## The standard route -/

theorem toAddr_ne_of_target {params : List Json}
    (h : getTargetAddress "eth_sendTransaction" params ≠ "") :
    (extractTxParams params).toAddr ≠ "" := by
  intro hempty
  apply h
  cases params with
  | nil => rfl
  | cons first rest =>
    unfold extractTxParams firstObject at hempty
    simp only [head?_cons, Option.bind_some] at hempty
    cases hobj : first.asObject with
    | none => simp [getTargetAddress, hobj]
    | some txObj =>
      simp only [hobj] at hempty
      cases hto : stringField txObj "to" with
      | none => simp [getTargetAddress, hobj, hto]
      | some recipient =>
        rw [hto, Option.getD_some] at hempty
        subst hempty
        simp [getTargetAddress, hobj, hto, isCreationTo]

theorem lookup_eraseKey {entries : List (String × Json)} {key erased : String}
    (hne : key ≠ erased) : (eraseKey entries erased).lookup key = entries.lookup key := by
  induction entries with
  | nil => rfl
  | cons entry rest ih =>
    obtain ⟨k, v⟩ := entry
    by_cases hk : k = erased
    · subst hk
      simp [eraseKey, lookup_cons, beq_false_of_ne hne] at ih ⊢
      exact ih
    · simp only [eraseKey, filter_cons, decide_not] at ih ⊢
      rw [if_pos (by simp [hk])]
      simp only [lookup_cons, ih]

theorem extractTxParams_strip (params : List Json) :
    extractTxParams (extractAndStripVisibleTo params).2 = extractTxParams params := by
  unfold extractAndStripVisibleTo
  split
  · split
    · rfl
    · simp [extractTxParams, firstObject, Json.asObject, stringField,
        lookup_eraseKey (show "from" ≠ "visibleTo" by decide),
        lookup_eraseKey (show "to" ≠ "visibleTo" by decide),
        lookup_eraseKey (show "data" ≠ "visibleTo" by decide),
        lookup_eraseKey (show "input" ≠ "visibleTo" by decide),
        lookup_eraseKey (show "value" ≠ "visibleTo" by decide)]
  · rfl

theorem processStandard_ok (h : processStandard p scope req = .ok f) :
    ∃ access send read params,
      validateWithTracing p req (requestTarget p req) = .ok send ∧
      validateEthCallWithTracing p scope req (requestTarget p req) access.orgID = .ok read ∧
      sendGates p access req = .ok (f.visibleTo, params) ∧
      f.params = (forwardedCall req.method params).2 ∧ f.evidence = send.evidence ++ read := by
  obtain ⟨-, -, h⟩ := bind_ok_cases h
  obtain ⟨access, -, h⟩ := bind_ok_cases h
  obtain ⟨-, -, h⟩ := bind_ok_cases h
  obtain ⟨-, -, h⟩ := bind_ok_cases h
  obtain ⟨send, hsend, h⟩ := bind_ok_cases h
  obtain ⟨read, hread, h⟩ := bind_ok_cases h
  obtain ⟨⟨visibleTo, params⟩, hgates, h⟩ := bind_ok_cases h
  obtain ⟨apiKey, -, h⟩ := bind_ok_cases h
  obtain rfl := Except.ok.inj h
  exact ⟨access, send, read, params, hsend, hread, hgates, rfl, rfl⟩

/-- A read gate that let a request through did so in some organization pin. -/
theorem validateEthCallWithTracing_ok {resolvedOrgID : String} {read : List Evidence}
    (h : validateEthCallWithTracing p scope req targetAddr resolvedOrgID = .ok read) :
    ∃ pinned, validateEthCallWithTracingInOrg p req targetAddr pinned resolvedOrgID = .ok read := by
  unfold validateEthCallWithTracing at h
  split at h
  · exact ⟨_, h⟩
  · split at h
    · cases h
    · exact ⟨_, h⟩

theorem processStandard_send (hmethod : req.method = "eth_sendTransaction")
    (h : processStandard p scope req = .ok f) :
    ∃ gate, validateWithTracing p req (getTargetAddress "eth_sendTransaction" req.params) =
        .ok gate ∧ f.evidence = gate.evidence ∧
      f.params = (extractAndStripVisibleTo req.params).2 := by
  have hcatalog : isCatalogMethod "eth_sendTransaction" = true := by decide +kernel
  have halias : p.accessCtrl.registry.resolveMethodAlias req.method = "eth_sendTransaction" := by
    rw [hmethod]
    exact p.accessCtrl.registry.resolveMethodAlias_catalog hcatalog
  obtain ⟨access, gate, read, params, hgate, hread, hsend, hparams, hevidence⟩ :=
    processStandard_ok h
  refine ⟨gate, ?_, ?_, ?_⟩
  · rw [requestTarget, accessMethod, halias] at hgate
    exact hgate
  · -- the read gate has nothing to say about a send
    obtain ⟨pinned, hread⟩ := validateEthCallWithTracing_ok hread
    have hskip : readTracing p req (requestTarget p req) = .ok none := by
      rw [readTracing, halias, if_pos (by decide)]
    rw [validateEthCallWithTracingInOrg, hskip] at hread
    obtain rfl := Except.ok.inj hread
    rw [hevidence, append_nil]
  · rw [sendGates, if_pos hmethod] at hsend
    obtain ⟨-, -, hsend⟩ := bind_ok_cases hsend
    obtain ⟨recipients, -, hsend⟩ := bind_ok_cases hsend
    obtain ⟨-, rfl⟩ := Prod.mk.inj (Except.ok.inj hsend)
    rw [hparams, hmethod]
    rfl

theorem not_authorized_nil {raw : Option (String × SignedTx)} :
    ¬ Authorized p rt validator userID [] raw tx := by
  intro h
  cases h with
  | noCode _ hseen _ | plainTransfer _ _ _ hseen _ | traced _ _ _ _ _ _ _ hseen _ => cases hseen

theorem send_authorized_iff (htracing : p.activeTracing = some (rt, validator))
    (hmethod : req.method = "eth_sendTransaction") (h : processStandard p scope req = .ok f) :
    (Authorized p rt validator req.userID f.evidence none (extractTxParams f.params) ∧
      ((extractTxParams f.params).fromAddr ≠ "" →
        SenderLinked p req.userID (extractTxParams f.params).fromAddr)) ↔
      getTargetAddress "eth_sendTransaction" req.params ≠ "" := by
  obtain ⟨gate, hgate, hevidence, hparams⟩ := processStandard_send hmethod h
  simp only [validateWithTracing, htracing, hmethod, ne_eq, not_true_eq_false, if_false] at hgate
  rw [hevidence, hparams, extractTxParams_strip]
  constructor
  · rintro ⟨hauth, -⟩ hempty
    rw [if_pos hempty] at hgate
    obtain rfl := Except.ok.inj hgate
    exact not_authorized_nil hauth
  · intro htarget
    rw [if_neg htarget] at hgate
    exact validateSend_ok hgate (toAddr_ne_of_target htarget)

/-! ## The raw route -/

theorem activeTracing_some (htracing : p.activeTracing = some (rt, validator)) :
    p.runtimeTracer = some rt ∧ p.traceValidator = some validator ∧ rt.enabled = true := by
  unfold Processor.activeTracing at htracing
  split at htracing
  · rename_i rt' validator' hrt hvalidator
    split at htracing
    · rename_i henabled
      obtain ⟨rfl, rfl⟩ := Prod.mk.inj (Option.some.inj htracing)
      exact ⟨hrt, hvalidator, henabled⟩
    · cases htracing
  · cases htracing

/-- The strict decoder of the preflight reads the bytes the proxy reads: behind
the prefix it accepts digits only, so there is no second prefix to trim. -/
theorem rawTxBytes_of_hexutilDecode {bytes : List UInt8} (h : hexutilDecode raw = .ok bytes) :
    rawTxBytes raw = .ok bytes := by
  have hnoX : ∀ digits : List Char, decodeHexChars ('0' :: 'X' :: digits) = none := by
    intro digits
    rfl
  obtain ⟨digits, hraw | hraw, hd⟩ := toList_of_hexutilDecode h
  · have hlower : trimPrefix raw "0x" = String.ofList digits := by
      simp [trimPrefix, hasPrefix, hraw]
    have hkeep : trimPrefix (String.ofList digits) "0X" = String.ofList digits := by
      unfold trimPrefix
      rw [if_neg]
      intro hprefix
      have hlist : (String.ofList digits).toList = digits := String.toList_ofList
      rw [hasPrefix, isPrefixOf_iff_prefix, hlist] at hprefix
      obtain ⟨rest, rfl⟩ := hprefix
      cases hd.symm.trans (hnoX rest)
    unfold rawTxBytes
    rw [hlower, hkeep, decodeHex, String.toList_ofList, hd]
  · have hfirst : trimPrefix raw "0x" = raw := by
      simp [trimPrefix, hasPrefix, hraw]
    have hsecond : trimPrefix raw "0X" = String.ofList digits := by
      simp [trimPrefix, hasPrefix, hraw]
    unfold rawTxBytes
    rw [hfirst, hsecond, decodeHex, String.toList_ofList, hd]

theorem prepare_signed {approvals : NodeApprovals}
    (hprepare : approvals.prepare p.unmarshalBinary raw = .ok (signed', prepared))
    (hdecode : decodeRawTransaction p.unmarshalBinary raw = .ok (signed, tx)) :
    signed' = signed := by
  obtain ⟨bytes, hbytes, hprepare⟩ := bind_ok_cases hprepare
  obtain ⟨decoded, hdecoded, hprepare⟩ := bind_ok_cases hprepare
  obtain ⟨-, -, hprepare⟩ := bind_ok_cases hprepare
  obtain ⟨-, -, hprepare⟩ := bind_ok_cases hprepare
  obtain ⟨sender, -, hprepare⟩ := bind_ok_cases hprepare
  obtain ⟨chain, -, hprepare⟩ := bind_ok_cases hprepare
  obtain ⟨-, -, hprepare⟩ := bind_ok_cases hprepare
  obtain ⟨simulated, -, hprepare⟩ := bind_ok_cases hprepare
  obtain ⟨rfl, -⟩ := Prod.mk.inj (Except.ok.inj hprepare)
  obtain ⟨bytes', hbytes', hdecode⟩ := bind_ok_cases hdecode
  obtain ⟨tx', htx', hdecode⟩ := bind_ok_cases hdecode
  obtain ⟨sender, -, hdecode⟩ := bind_ok_cases hdecode
  obtain ⟨rfl, -⟩ := Prod.mk.inj (Except.ok.inj hdecode)
  rw [rawTxBytes_of_hexutilDecode hbytes] at hbytes'
  obtain rfl := Except.ok.inj hbytes'
  rw [hdecoded] at htx'
  exact Except.ok.inj htx'

theorem preparePreflight_ok (h : preparePreflight p req raw = .ok (some (signed', prepared)))
    (hdecode : decodeRawTransaction p.unmarshalBinary raw = .ok (signed, tx)) :
    Preflight p (some (raw, signed)) signed' prepared := by
  unfold preparePreflight at h
  split at h
  · cases h
  · rename_i approvals happrovals
    obtain ⟨-, -, h⟩ := bind_ok_cases h
    obtain ⟨-, -, h⟩ := bind_ok_cases h
    obtain ⟨found, hprepare, h⟩ := bind_ok_cases h
    obtain rfl := Option.some.inj (Except.ok.inj h)
    obtain rfl := prepare_signed (orFail_ok hprepare) hdecode
    exact ⟨raw, approvals, rfl, happrovals, orFail_ok hprepare⟩

theorem rawValidator_ok (hvalidator : p.traceValidator = some validator)
    {validator' : TraceValidator} (h : rawValidator p = .ok validator') :
    validator' = validator := by
  rw [rawValidator, hvalidator] at h
  exact (Except.ok.inj h).symm

/-- A raw transaction with a signed preflight that passed its gate. -/
theorem validateRawTxWithPreparedTrace_ok {raw : Option (String × SignedTx)}
    (hpreflight : Preflight p raw signed prepared)
    (h : validateRawTxWithPreparedTrace p rt validator req signed tx prepared = .ok gate) :
    Authorized p rt validator req.userID gate.evidence raw tx := by
  obtain ⟨⟨user, memberships⟩, hidentity, h⟩ := bind_ok_cases h
  obtain ⟨trace, htrace, h⟩ := bind_ok_cases h
  obtain ⟨targets, hvalid, h⟩ := bind_ok_cases h
  obtain rfl := Except.ok.inj h
  refine .traced user memberships (some (signed, prepared)) trace (sendIdentity_ok hidentity)
    ?_ ?_ (by simp) (validateSendTrace_ok hvalid)
  · rintro _ _ ⟨⟩
    exact hpreflight
  · have hanswer := someOrRefuse_ok htrace
    cases hprepared : prepared.trace with
    | none =>
      rw [hprepared] at hanswer
      exact .tracer hanswer (by simp)
    | some trace' =>
      rw [hprepared] at hanswer
      obtain rfl := Option.some.inj (Except.ok.inj hanswer)
      exact .preflight signed prepared rfl hprepared (by simp)

/-- A raw transaction that passed its gate is authorized. -/
theorem validateRawTransaction_ok (hvalidator : p.traceValidator = some validator)
    {raw : Option (String × SignedTx)} {preflight : Option (SignedTx × Prepared)}
    (hpreflight : ∀ signed prepared, preflight = some (signed, prepared) →
      Preflight p raw signed prepared)
    (h : validateRawTransaction p rt req tx preflight = .ok gate) :
    Authorized p rt validator req.userID gate.evidence raw tx := by
  unfold validateRawTransaction at h
  split at h
  · rename_i signed prepared
    have hanswered := hpreflight signed prepared rfl
    split at h
    · rename_i hplain
      obtain rfl := Except.ok.inj h
      exact .plainTransfer signed prepared hanswered (by simp) hplain
    · obtain ⟨validator', hfound, h⟩ := bind_ok_cases h
      obtain rfl := rawValidator_ok hvalidator hfound
      exact validateRawTxWithPreparedTrace_ok hanswered h
  · split at h
    · split at h
      · rename_i hplain
        obtain rfl := Except.ok.inj h
        obtain ⟨hdata, hcode⟩ := isPlainTransfer_true hplain
        exact .noCode hdata (by simp) hcode
      · obtain ⟨validator', hfound, h⟩ := bind_ok_cases h
        obtain rfl := rawValidator_ok hvalidator hfound
        obtain ⟨⟨user, memberships⟩, hidentity, h⟩ := bind_ok_cases h
        exact traceAndValidate_ok h (sendIdentity_ok hidentity)
    · rename_i hto
      obtain ⟨⟨user, memberships⟩, hidentity, h⟩ := bind_ok_cases h
      simp only [hvalidator] at h
      exact validateDeployWithTracing_ok h (sendIdentity_ok hidentity) (not_ne_iff.mp hto)

theorem extractRawTxHex_strip (params : List Json) :
    extractRawTxHex (extractAndStripRawTxVisibleTo params).2 = extractRawTxHex params := by
  unfold extractAndStripRawTxVisibleTo
  split
  · split
    · rfl
    · rename_i raw _ _ _ _ _
      cases raw <;> rfl
  · rfl

theorem processRawTransaction_ok (h : processRawTransaction p scope req = .ok f) :
    ∃ rt rawTxHex signed tx prepared gate, rawTracer p = .ok rt ∧
      extractRawTxHex f.params = .ok rawTxHex ∧
      decodeRawTransaction p.unmarshalBinary rawTxHex = .ok (signed, tx) ∧
      preparePreflight p req rawTxHex = .ok prepared ∧
      validateRawTransaction p rt req tx prepared = .ok gate ∧
      privateRecipients p req (extractAndStripRawTxVisibleTo req.params).1 tx (tx.toAddr == "") =
        .ok f.visibleTo ∧ f.evidence = gate.evidence := by
  obtain ⟨rt, hrt, h⟩ := bind_ok_cases h
  obtain ⟨⟨rawTxHex, signed, tx⟩, hdecode, h⟩ := bind_ok_cases h
  obtain ⟨access, -, h⟩ := bind_ok_cases h
  obtain ⟨-, -, h⟩ := bind_ok_cases h
  obtain ⟨-, -, h⟩ := bind_ok_cases h
  obtain ⟨prepared, hprepared, h⟩ := bind_ok_cases h
  obtain ⟨gate, hgate, h⟩ := bind_ok_cases h
  obtain ⟨-, -, h⟩ := bind_ok_cases h
  obtain ⟨visibleTo, hrecipients, h⟩ := bind_ok_cases h
  obtain ⟨apiKey, -, h⟩ := bind_ok_cases h
  obtain ⟨-, -, h⟩ := bind_ok_cases h
  obtain rfl := Except.ok.inj h
  obtain ⟨raw, hraw, hdecode⟩ := bind_ok_cases hdecode
  obtain ⟨decoded, hdecoded, hpair⟩ := bind_ok_cases hdecode
  obtain ⟨rfl, rfl⟩ := Prod.mk.inj (Except.ok.inj hpair)
  refine ⟨rt, raw, signed, tx, prepared, gate, hrt, ?_, orFail_ok hdecoded, hprepared, hgate,
    hrecipients, rfl⟩
  rw [← orFail_ok hraw]
  exact extractRawTxHex_strip req.params

theorem raw_authorized (htracing : p.activeTracing = some (rt, validator))
    (h : processRawTransaction p scope req = .ok f) :
    ∃ rawTxHex signed tx, extractRawTxHex f.params = .ok rawTxHex ∧
      decodeRawTransaction p.unmarshalBinary rawTxHex = .ok (signed, tx) ∧
      Authorized p rt validator req.userID f.evidence (some (rawTxHex, signed)) tx := by
  obtain ⟨hrt, hvalidator, henabled⟩ := activeTracing_some htracing
  obtain ⟨rt', raw, signed, tx, prepared, gate, hrt', hraw, hdecoded, hprepared, hgate, -,
    hevidence⟩ := processRawTransaction_ok h
  obtain rfl : rt = rt' := by
    simpa [rawTracer, hrt, Option.filter, henabled] using hrt'
  refine ⟨raw, signed, tx, hraw, hdecoded, ?_⟩
  rw [hevidence]
  refine validateRawTransaction_ok hvalidator (fun s found hfound => ?_) hgate
  subst hfound
  exact preparePreflight_ok hprepared hdecoded

/-- The calls and sends that take the standard route. -/
theorem process_standard {processDebugTrace : ProcessRequest → Except ProcessError Forward}
    (hmethod : canonicalizeMethod req.method ∈
      ["eth_call", "eth_estimateGas", "eth_sendTransaction"]) :
    process p scope processDebugTrace req =
      processStandard p scope { req with method := canonicalizeMethod req.method } := by
  have hcatalog : isCatalogMethod (canonicalizeMethod req.method) = true := by
    simp only [mem_cons, not_mem_nil, or_false] at hmethod
    rcases hmethod with hm | hm | hm <;> rw [hm] <;> decide +kernel
  have hraw : canonicalizeMethod req.method ≠ "eth_sendRawTransaction" := by
    intro heq
    rw [heq] at hmethod
    simp at hmethod
  have hdebug : isDebugTrace p { req with method := canonicalizeMethod req.method } = false := by
    simp only [isDebugTrace, accessMethod,
      p.accessCtrl.registry.resolveMethodAlias_catalog hcatalog]
    simp only [mem_cons, not_mem_nil, or_false] at hmethod
    rcases hmethod with hm | hm | hm <;> rw [hm] <;> decide
  rw [process, if_neg hraw, hdebug, if_neg Bool.false_ne_true]

end Proof

/-- **Which forwarded transactions were authorized.** With tracing on, a forwarded
transaction rests on a validated trace, or is a plain value transfer, and names a
linked sender, exactly when it is raw or names a recipient. -/
theorem forwarded_authorized_iff (p : Processor) (rt : RuntimeTracer) (validator : TraceValidator)
    (htracing : p.activeTracing = some (rt, validator)) (scope : Option String)
    (processDebugTrace : ProcessRequest → Except ProcessError Forward) (req : ProcessRequest)
    (f : Forward)
    (hmethod : canonicalizeMethod req.method = "eth_sendTransaction" ∨
      canonicalizeMethod req.method = "eth_sendRawTransaction")
    (hforward : process p scope processDebugTrace req = .ok f) :
    ForwardAuthorized p rt validator req f ↔
      (canonicalizeMethod req.method = "eth_sendTransaction" →
        getTargetAddress "eth_sendTransaction" req.params ≠ "") := by
  rcases hmethod with hsend | hraw
  · rw [process_standard (by simp [hsend]), hsend] at hforward
    have hiff := send_authorized_iff htracing rfl hforward
    rw [ForwardAuthorized, if_pos hsend]
    exact hiff.trans ⟨fun h _ => h, fun h => h hsend⟩
  · rw [process, if_pos hraw] at hforward
    have hother : canonicalizeMethod req.method ≠ "eth_sendTransaction" := by
      rw [hraw]
      decide
    have hauth := raw_authorized htracing hforward
    rw [ForwardAuthorized, if_neg hother]
    exact ⟨fun _ hsend => absurd hsend hother, fun _ => hauth⟩

/-! ## A deployment -/

/-- One member of `org-o`, with the deploy claim, one granted contract and one
linked address. -/
def deployStore : Store where
  getUserByExternalID id :=
    .ok (if id = "did:dana" then some { id := "dana", externalID := id, kyc := true } else none)
  listActiveUserMembershipsWithDetails _ :=
    .ok [{ group := some { id := "group-o", orgID := "org-o" } }]
  getOrganization id := .ok (some { id := id })
  getOrganizationBySlug _ := .ok none
  getContractOwnerOrgID a :=
    .ok (if a = "0xa1" then "org-o" else if a = "0xb2" then "org-q" else "")
  isAddressPreregistered _ _ := .ok false
  getContractDeployerByAddress _ := .ok none
  getGroupAccess _ := .ok none
  getLinkedEthAddresses _ := .ok ["0xF1"]
  getContractByAddress _ _ := .ok none
  isAddressOwnedByOrg a orgID := .ok (a = "0xa1" ∧ orgID = "org-o")
  isOrgAdmin := none

def deployController : AccessController where
  store := deployStore
  registry := {}
  abi := { decodeCall := fun _ => .error "no ABI" }
  cacheGet := fun _ _ => none
  resolvePermissions := fun _ _ =>
    .ok { allowedMethods := ["eth_sendTransaction"], contractAccess := [("0xa1", {})],
          claims := [.deploy] }

def deployValidator : TraceValidator where
  store :=
    { isAddressOwnedByOrg := deployStore.isAddressOwnedByOrg
      getContractOwnerOrgID := deployStore.getContractOwnerOrgID
      isAddressPreregistered := deployStore.isAddressPreregistered
      getSharedInfrastructure := fun _ => .ok none }

/-- A node on which a call runs the granted contract only, and a creation reads a
contract of another organization from its constructor. -/
def deployTracer : RuntimeTracer where
  debugTraceCall request :=
    .ok (match stringField request.callObj "to" with
      | some recipient => .mk .call "" recipient "" []
      | none => .mk .create "" "0xc3" "" [.mk .staticCall "0xc3" "0xb2" "" []])
  getCode _ := .ok "0x60"

def deployProcessor : Processor where
  accessCtrl := deployController
  runtimeTracer := some deployTracer
  traceValidator := some deployValidator
  unmarshalBinary _ := .error "no transaction"

def targetedSend : ProcessRequest where
  userID := "did:dana"
  method := "eth_sendTransaction"
  params := [.obj [("from", .str "0xf1"), ("to", .str "0xA1"), ("data", .str "0x01")]]

/-- The same sender field names somebody else, and there is no recipient. -/
def untracedDeployment : ProcessRequest where
  userID := "did:dana"
  method := "eth_sendTransaction"
  params := [.obj [("from", .str "0xee"), ("data", .str "0x6001")]]

def noDebugTrace (_ : ProcessRequest) : Except ProcessError Forward := .error methodNotFound

theorem targetedSend_authorized :
    ∃ f, process deployProcessor none noDebugTrace targetedSend = .ok f ∧
      (ForwardAuthorized deployProcessor deployTracer deployValidator targetedSend f ↔
        (canonicalizeMethod targetedSend.method = "eth_sendTransaction" →
          getTargetAddress "eth_sendTransaction" targetedSend.params ≠ "")) := by
  obtain ⟨f, hforward, -⟩ :=
    exists_ok_of_any (x := process deployProcessor none noDebugTrace targetedSend)
      (q := fun _ => true) (by decide +kernel)
  exact ⟨f, hforward, forwarded_authorized_iff deployProcessor deployTracer deployValidator rfl none
    noDebugTrace targetedSend f (.inl (by decide +kernel)) hforward⟩

/-- A deployment goes to the node although nothing was traced, its constructor
reads another organization's contract, and its sender is not linked. -/
theorem deployment_forwarded_untraced :
    ∃ f, process deployProcessor none noDebugTrace untracedDeployment = .ok f ∧
      f.evidence = [] ∧
      ¬ ForwardAuthorized deployProcessor deployTracer deployValidator untracedDeployment f ∧
      ¬ SenderLinked deployProcessor untracedDeployment.userID "0xee" := by
  have hmethod : canonicalizeMethod untracedDeployment.method = "eth_sendTransaction" := by
    decide +kernel
  obtain ⟨f, hforward, hnone⟩ :=
    exists_ok_of_any (x := process deployProcessor none noDebugTrace untracedDeployment)
      (q := (·.evidence.isEmpty)) (by decide +kernel)
  have hempty : f.evidence = [] := isEmpty_iff.mp hnone
  refine ⟨f, hforward, hempty, ?_, ?_⟩
  · rw [ForwardAuthorized, if_pos hmethod, hempty]
    exact fun h => not_authorized_nil h.1
  · rintro ⟨addresses, haddresses, a, ha, heq⟩
    obtain rfl := Except.ok.inj haddresses
    obtain rfl := mem_singleton.mp ha
    exact absurd heq (by decide +kernel)

end PrivacySuite.Server
