import PrivacySuite.Rbac.MergedRules

/-!
# Rights from group memberships

What a member may do under the merged permissions, right by right, and how it depends
on the list of memberships. Claims and reachable contracts only grow with another
group and do not depend on the order. A function or an event may lose the parameter
rules that admitted a call: of several groups that constrain one selector or one topic
differently, only the first listed counts, and the query that lists the memberships
fixes no order.
-/

namespace PrivacySuite.Rbac

open Go Resolver Phase LogFilter List

/-! ## Requests -/

def Selector : Type := { bytes : List UInt8 // bytes.length = 4 }

def Selector.text (s : Selector) : String := "0x" ++ encodeHex s.val

def Topic : Type := { bytes : List UInt8 // bytes.length = 32 }

def Topic.text (t : Topic) : String := "0x" ++ encodeHex t.val

/-- A request with the selector of its call data, if it has one. -/
def AccessCheckRequest.withSelector (req : AccessCheckRequest) (selector : Option Selector) :
    AccessCheckRequest :=
  { req with functionSelector := (selector.map Selector.text).getD "" }

/-- What decisions are made from beside the permissions. -/
structure Judge where
  controller : AccessController
  filter : LogFilter

inductive Request where
  | method (name : String)
  | claim (claim : Claim)
  | contract (address : String)
  | contractClaim (address : String) (claim : Claim)
  | call (req : AccessCheckRequest) (org : Organization) (selector : Option Selector)
  | event (address : String) (topic0 : Topic) (topics : List String) (data : String)

def eventPermitted (f : LogFilter) (access : Option ContractAccess) (entry : LogEntry) : Bool :=
  match LogFilter.ruleMode (LogFilter.rulesOf access), entry.topics with
  | .wildcard, _ => true
  | .allowlist, topic0 :: _ =>
      f.eventAllowed (toLower topic0) entry
        (LogFilter.eventRulesGetRules (LogFilter.rulesOf access)) (toLower entry.address)
  | _, _ => false

def allows (j : Judge) (p : EffectivePermissions) : Request → Bool
  | .method name => p.hasMethod j.controller.registry name
  | .claim claim => hasClaim p.claims claim
  | .contract address => (p.getContractAccess address).isSome
  | .contractClaim address claim => p.hasContractClaim address claim
  | .call req org selector =>
      match p.getContractAccess req.targetAddress with
      | none => false
      | some access =>
          (validateFunctionSelector j.controller (req.withSelector selector) org access).isOk
  | .event address topic0 topics data =>
      eventPermitted j.filter (p.getContractAccess address) ⟨address, topic0.text :: topics, data⟩

def merged (sets : List GroupPermSet) : EffectivePermissions where
  allowedMethods := (mergeGroups sets).allowedMethods
  contractAccess := (mergeGroups sets).contractAccess
  claims := expandClaims (mergeGroups sets).claims
  rpcAPIKey := (mergeGroups sets).rpcAPIKey

/-! ## What the groups give -/

section Gives

variable (j : Judge)

def AdmitsCall (req : AccessCheckRequest) (org : Organization) (s : Selector)
    (params : List ParamRule) : Prop :=
  params = [] ∨
    (validateSelectorParams j.controller (req.withSelector (some s)) org
      ⟨s.text, params⟩).isOk = true

/-- The entries for the target of a call give the call. Without an entry only a
precompile is open, and without a selector only unrestricted entries are. -/
def GivesCall (req : AccessCheckRequest) (org : Organization) (entries : List ContractAccess) :
    Option Selector → Prop
  | none =>
      if entries = [] then isPrecompileAddress (toLower req.targetAddress) = true
      else req.effectiveMethod ∈ ["eth_call", "eth_estimateGas", "eth_sendTransaction"] →
        functionLists entries = none
  | some s =>
      if entries = [] then isPrecompileAddress (toLower req.targetAddress) = true
      else ∀ lists, functionLists entries = some lists →
        ∃ params, (standing selectorKey FunctionRule.paramRules s.text lists).head? = some params ∧
          AdmitsCall j req org s params

def AdmitsLog (entry : LogEntry) (params : List ParamRule) : Prop :=
  params = [] ∨
    matchesEventParamRules j.filter.pkg entry.topics entry.data params j.filter.addrSet
      (j.filter.contractABI (toLower entry.address)) = true

/-- The entries for the emitter of a log give the log. -/
def GivesEvent (topic0 : Topic) (entry : LogEntry) (entries : List ContractAccess) : Prop :=
  (∃ e ∈ entries, isWildcard e.eventRules = true) ∨
    ∃ params ∈ standing topicKey EventRule.paramRules topic0.text
      (allowlists (entries.map (·.eventRules))), AdmitsLog j entry params

/-- Some group lists the star. -/
def Starred (sets : List GroupPermSet) : Prop := ∃ set ∈ sets, "*" ∈ set.allowedMethods

/-- What the groups give, in membership order. -/
def Gives (sets : List GroupPermSet) : Request → Prop
  | .method name =>
      j.controller.registry.isForwardableMethod name = true ∧
        (name ∈ spellings (toLower name) (sets.map (·.allowedMethods)) ∨
          Starred sets ∧ j.controller.registry.inWildcardExpansion name = true)
  | .claim claim => ∃ set ∈ sets, ∃ held ∈ set.claims, claim = held ∨ claim ∈ claimImplications held
  | .contract address =>
      entriesAt (toLower address) sets ≠ [] ∨ isPrecompileAddress (toLower address) = true
  | .contractClaim address claim => ∃ e ∈ entriesAt (toLower address) sets, claim ∈ e.claims
  | .call req org selector =>
      GivesCall j req org (entriesAt (toLower req.targetAddress) sets) selector
  | .event address topic0 topics data =>
      GivesEvent j topic0 ⟨address, topic0.text :: topics, data⟩
        (entriesAt (toLower address) sets)

end Gives

/-! ## Decisions on one entry -/

theorem equalFold_hexText (text : String) (bytes : List UInt8) :
    equalFold text ("0x" ++ encodeHex bytes) = (toLower text == "0x" ++ encodeHex bytes) := by
  have hspelled := spelled_encodeHex bytes
  have hlower := toLower_of_spelled hspelled
  rw [← hlower, equalFold_of_spelled hspelled, hlower]

theorem filter_selector (rules : List FunctionRule) (s : Selector) :
    (rules.filter fun rule => equalFold rule.selector s.text) = keyed selectorKey s.text rules := by
  refine filter_congr fun rule _ => ?_
  rw [Selector.text, equalFold_hexText]
  rfl

theorem filter_topic (rules : List EventRule) (t : Topic) :
    (rules.filter fun rule => equalFold rule.topic0 t.text) = keyed topicKey t.text rules := by
  refine filter_congr fun rule _ => ?_
  rw [Topic.text, equalFold_hexText]
  rfl

theorem equalFold_comm (s t : String) : equalFold s t = equalFold t s := by
  unfold equalFold
  rw [Bool.beq_comm]

/-- The outcome of two phases is ok alike when it is after every common value. -/
theorem isOk_bind_congr {ω α β : Type} {x : Except ω α} {f g : α → Except ω β}
    (h : ∀ a, (f a).isOk = (g a).isOk) : (x >>= f).isOk = (x >>= g).isOk := by
  cases x with
  | error e => rfl
  | ok a => exact h a

variable {s : Selector} {req : AccessCheckRequest} {org : Organization} {j : Judge}
  {access : ContractAccess} {claim : Claim}

/-- Validation looks at the selector of a rule up to case only. -/
theorem validateParamRules_isOk {abi : CallAbi} {rule : FunctionRule}
    (h : selectorKey rule = s.text) (calldata : List UInt8) (contractABI : String)
    (userAddresses : List String) :
    (validateParamRules abi rule calldata contractABI userAddresses).isOk =
      (validateParamRules abi ⟨s.text, rule.paramRules⟩ calldata contractABI
        userAddresses).isOk := by
  have hfold : ∀ bytes, equalFold ("0x" ++ encodeHex bytes) rule.selector =
      equalFold ("0x" ++ encodeHex bytes) s.text := by
    intro bytes
    rw [equalFold_comm, equalFold_hexText, equalFold_comm, equalFold_hexText,
      show toLower rule.selector = s.text from h, Selector.text,
      toLower_of_spelled (spelled_encodeHex s.val)]
  unfold validateParamRules
  refine isOk_bind_congr fun _ => isOk_bind_congr fun _ => isOk_bind_congr fun methodById =>
    isOk_bind_congr fun _ => isOk_bind_congr fun unpack => ?_
  simp only [onlyIf, hfold]
  cases equalFold ("0x" ++ encodeHex (calldata.take 4)) s.text <;> rfl

theorem validateSelectorParams_isOk {c : AccessController} {rule : FunctionRule}
    (h : selectorKey rule = s.text) :
    (validateSelectorParams c req org rule).isOk =
      (validateSelectorParams c req org ⟨s.text, rule.paramRules⟩).isOk := by
  have horDeny : ∀ {α : Type} {x y : Except String α} {describe : String → String},
      x.isOk = y.isOk → (orDeny x describe).isOk = (orDeny y describe).isOk := by
    intro α x y describe hxy
    cases x <;> cases y <;> first | rfl | cases hxy
  unfold validateSelectorParams
  split
  · rfl
  · exact isOk_bind_congr fun _ => isOk_bind_congr fun _ =>
      horDeny (validateParamRules_isOk h _ _ _)

/-- A call with a selector under a list of function rules: the first rule for the
selector decides. -/
theorem validateFunctionSelector_rules {rules : List FunctionRule}
    (hrules : access.functions = some rules) :
    (validateFunctionSelector j.controller (req.withSelector (some s)) org access).isOk = true ↔
      ∃ params, ((keyed selectorKey s.text rules).map (·.paramRules)).head? = some params ∧
        AdmitsCall j req org s params := by
  have hne : (req.withSelector (some s)).functionSelector ≠ "" := by
    show "0x" ++ encodeHex s.val ≠ ""
    intro h
    exact absurd (String.append_eq_empty_iff.mp h).1 (by decide)
  have hhas : accessHasFunctionSelector access (req.withSelector (some s)).functionSelector =
      !(keyed selectorKey s.text rules).isEmpty := by
    rw [← filter_selector, accessHasFunctionSelector, hrules, Bool.eq_iff_iff,
      show (req.withSelector (some s)).functionSelector = s.text from rfl]
    simp
  have hget : accessGetFunctionRule access (req.withSelector (some s)).functionSelector =
      (keyed selectorKey s.text rules).head? := by
    rw [← filter_selector, accessGetFunctionRule, hrules, head?_filter]
    rfl
  unfold validateFunctionSelector
  rw [if_pos hne, hhas, hget]
  cases hkeyed : keyed selectorKey s.text rules with
  | nil => simp [deny, Except.isOk, Except.toBool]
  | cons rule rest =>
    have hkey : selectorKey rule = s.text := by
      have hmem : rule ∈ keyed selectorKey s.text rules := by
        rw [hkeyed]
        exact mem_cons_self
      simpa [keyed] using (mem_filter.mp hmem).2
    simp only [map_cons, head?_cons, Option.some.injEq, exists_eq_left', AdmitsCall,
      ← validateSelectorParams_isOk hkey]
    by_cases hparams : rule.paramRules = [] <;> simp [hparams, Except.isOk, Except.toBool]

theorem validateFunctionSelector_open (hopen : access.functions = none) :
    (validateFunctionSelector j.controller (req.withSelector (some s)) org access).isOk = true := by
  unfold validateFunctionSelector accessHasFunctionSelector accessGetFunctionRule
  rw [hopen]
  simp [Except.isOk, Except.toBool]

theorem validateFunctionSelector_none :
    (validateFunctionSelector j.controller (req.withSelector none) org access).isOk = true ↔
      (req.effectiveMethod ∈ ["eth_call", "eth_estimateGas", "eth_sendTransaction"] →
        access.functions = none) := by
  have hnone : (req.withSelector none).functionSelector = "" := rfl
  have hmethod : (req.withSelector none).effectiveMethod = req.effectiveMethod := rfl
  unfold validateFunctionSelector
  rw [if_neg (not_not.mpr hnone), hmethod]
  simp only [mem_cons, not_mem_nil, or_false]
  by_cases huses : req.effectiveMethod = "eth_call" ∨ req.effectiveMethod = "eth_estimateGas" ∨
      req.effectiveMethod = "eth_sendTransaction"
  · cases hfunctions : access.functions <;>
      simp [huses, Except.isOk, Except.toBool, deny]
  · simp [huses, Except.isOk, Except.toBool]

theorem eventPermitted_iff {address : String} {t : Topic} {topics : List String} {data : String} :
    eventPermitted j.filter (some access) ⟨address, t.text :: topics, data⟩ = true ↔
      isWildcard access.eventRules = true ∨
        (isWildcard access.eventRules = false ∧
          ∃ params ∈ (keyed topicKey t.text
              (eventRulesGetRules access.eventRules)).map (·.paramRules),
            AdmitsLog j ⟨address, t.text :: topics, data⟩ params) := by
  have hlower : toLower t.text = t.text := toLower_of_spelled (spelled_encodeHex t.val)
  have hallowed : ∀ rules : List EventRule,
      j.filter.eventAllowed (toLower t.text) ⟨address, t.text :: topics, data⟩ rules
          (toLower address) = true ↔
        ∃ params ∈ (keyed topicKey t.text rules).map (·.paramRules),
          AdmitsLog j ⟨address, t.text :: topics, data⟩ params := by
    intro rules
    rw [eventAllowed, hlower, ← filter_topic, any_eq_true]
    simp only [Bool.and_eq_true, Bool.or_eq_true, List.isEmpty_iff, mem_map,
      mem_filter, AdmitsLog, exists_exists_and_eq_and]
    simp only [and_assoc]
  rw [← hallowed]
  unfold eventPermitted
  show (match ruleMode access.eventRules, t.text :: topics with
    | .wildcard, _ => true
    | .allowlist, topic0 :: _ => j.filter.eventAllowed (toLower topic0) _
        (eventRulesGetRules access.eventRules) (toLower address)
    | _, _ => false) = true ↔ _
  cases hfield : access.eventRules with
  | none => simp [ruleMode, isWildcard, eventRulesGetRules,
      eventAllowed]
  | some field =>
    cases hwild : field.wildcard with
    | true => simp [ruleMode, isWildcard, hwild]
    | false =>
      by_cases hrules : field.rules = []
      · simp [ruleMode, isWildcard, hwild, hrules, eventRulesGetRules,
          eventAllowed]
      · simp [ruleMode, isWildcard, hwild, hrules, eventRulesGetRules]

/-! ## Decisions on merged permissions -/

theorem allowedMethods_mergeGroups (sets : List GroupPermSet) :
    (mergeGroups sets).allowedMethods =
      unionAll toLower (fun e _ => e) (sets.map (·.allowedMethods)) := by
  cases sets with
  | nil => rfl
  | cons first rest =>
    show (rest.foldl mergeGroup first).allowedMethods =
      (rest.map (·.allowedMethods)).foldl (keyedUnion toLower fun e _ => e) first.allowedMethods
    rw [foldl_map]
    exact (foldl_hom GroupPermSet.allowedMethods fun _ _ => (unionStrings_eq _ _).symm).symm

theorem mem_claims_mergeGroups {sets : List GroupPermSet} :
    claim ∈ (mergeGroups sets).claims ↔ ∃ set ∈ sets, claim ∈ set.claims := by
  cases sets with
  | nil => simp [mergeGroups]
  | cons first rest =>
    show claim ∈ (rest.foldl mergeGroup first).claims ↔ _
    induction rest generalizing first with
    | nil => simp
    | cons set more ih =>
      rw [foldl_cons, ih]
      simp [mergeGroup, unionClaims, or_assoc]

theorem mem_expandClaims {claims : List Claim} :
    claim ∈ expandClaims claims ↔ ∃ held ∈ claims, claim = held ∨ claim ∈ claimImplications
      held := by
  rw [expandClaims, (perm_insertionSort _ _).mem_iff, mem_dedup, mem_flatMap]
  simp

theorem mem_claims_foldl {e : ContractAccess} {rest : List ContractAccess} :
    claim ∈ (rest.foldl mergeContractAccess e).claims ↔ ∃ x ∈ e :: rest, claim ∈ x.claims := by
  induction rest generalizing e with
  | nil => simp
  | cons x more ih =>
    rw [foldl_cons, ih]
    simp [mergeContractAccess, unionClaims, or_assoc]

theorem eventRules_mergeContractAccess (e : ContractAccess) (rest : List ContractAccess) :
    (rest.foldl mergeContractAccess e).eventRules =
      (rest.map (·.eventRules)).foldl unionEventRules e.eventRules := by
  rw [foldl_map]
  exact (foldl_hom ContractAccess.eventRules fun _ _ => rfl).symm

section Merged

variable {sets : List GroupPermSet} (h : ∀ set ∈ sets, LowerKeys set.contractAccess)

include h

variable {address : String}

theorem getContractAccess_nil (hnil : entriesAt (toLower address) sets = []) :
    (merged sets).getContractAccess address =
      if isPrecompileAddress (toLower address) then some {} else none := by
  unfold EffectivePermissions.getContractAccess merged
  rw [lookup_mergeGroups h, hnil]
  rfl

theorem getContractAccess_cons {e : ContractAccess} {rest : List ContractAccess}
    (hentries : entriesAt (toLower address) sets = e :: rest) :
    (merged sets).getContractAccess address = some (rest.foldl mergeContractAccess e) := by
  unfold EffectivePermissions.getContractAccess merged
  rw [lookup_mergeGroups h, hentries]
  rfl

theorem allows_call {j : Judge} {req : AccessCheckRequest} {org : Organization}
    {selector : Option Selector} :
    allows j (merged sets) (.call req org selector) = true ↔
      GivesCall j req org (entriesAt (toLower req.targetAddress) sets) selector := by
  rw [allows]
  cases hentries : entriesAt (toLower req.targetAddress) sets with
  | nil =>
    -- no group has an entry: a precompile is open, everything else closed
    rw [getContractAccess_nil h hentries]
    by_cases hpre : isPrecompileAddress (toLower req.targetAddress) = true
    · cases selector with
      | none => simp [hpre, GivesCall, validateFunctionSelector_none]
      | some s => simp [hpre, GivesCall, validateFunctionSelector_open]
    · cases selector <;> simp [hpre, GivesCall]
  | cons e rest =>
    rw [getContractAccess_cons h hentries]
    have hfunctions := functions_foldl e rest
    cases selector with
    | none => simp [GivesCall, validateFunctionSelector_none, hfunctions]
    | some s =>
      cases hlists : functionLists (e :: rest) with
      | none =>
        rw [hlists] at hfunctions
        simp [GivesCall, hlists, validateFunctionSelector_open hfunctions]
      | some lists =>
        rw [hlists] at hfunctions
        simp only [validateFunctionSelector_rules hfunctions, GivesCall, hlists,
          map_keyed_unionAll selectorKey_merge paramRules_mergeFunctionRule]
        simp

theorem allows_event {j : Judge} {t : Topic} {topics : List String} {data : String} :
    allows j (merged sets) (.event address t topics data) = true ↔
      GivesEvent j t ⟨address, t.text :: topics, data⟩ (entriesAt (toLower address) sets) := by
  rw [allows, GivesEvent]
  cases hentries : entriesAt (toLower address) sets with
  | nil =>
    rw [getContractAccess_nil h hentries]
    by_cases hpre : isPrecompileAddress (toLower address) = true
    · simp [hpre, eventPermitted_iff, isWildcard, eventRulesGetRules, keyed,
        allowlists, standing, contenders]
    · simp [hpre, eventPermitted, rulesOf, ruleMode, allowlists, standing,
        contenders]
  | cons e rest =>
    rw [getContractAccess_cons h hentries]
    obtain ⟨hwild, hrules⟩ := eventRules_foldl e.eventRules (rest.map (·.eventRules))
    have hany : (e.eventRules :: rest.map (·.eventRules)).any isWildcard = true ↔
        ∃ x ∈ e :: rest, isWildcard x.eventRules = true := by simp
    rw [eventPermitted_iff, eventRules_mergeContractAccess, hwild, ← hany, map_cons]
    cases hcase : (e.eventRules :: rest.map (·.eventRules)).any isWildcard with
    | true => simp
    | false =>
      rw [hrules hcase, map_keyed_unionAll topicKey_merge paramRules_mergeEventRule]
      simp

/-- The merged permissions allow what the groups give. -/
theorem allows_merged (j : Judge) (q : Request) :
    allows j (merged sets) q = true ↔ Gives j sets q := by
  cases q with
  | method name =>
    have hstar : "*" ∈ unionAll toLower (fun e _ => e) (sets.map (·.allowedMethods)) ↔
        Starred sets := by
      rw [star_mem_methods_iff]
      simp [Starred]
    rw [allows, Gives, EffectivePermissions.hasMethod, merged, allowedMethods_mergeGroups,
      ← mem_methods_iff, ← hstar]
    simp only [Bool.and_eq_true, Bool.or_eq_true, contains_iff_mem]
  | claim claim =>
    rw [allows, Gives, hasClaim, merged]
    rw [contains_iff_mem, mem_expandClaims]
    simp only [mem_claims_mergeGroups]
    constructor
    · rintro ⟨held, ⟨set, hset, hheld⟩, hc⟩
      exact ⟨set, hset, held, hheld, hc⟩
    · rintro ⟨set, hset, held, hheld, hc⟩
      exact ⟨held, ⟨set, hset, hheld⟩, hc⟩
  | contract address =>
    rw [allows, Gives]
    cases hentries : entriesAt (toLower address) sets with
    | nil =>
      rw [getContractAccess_nil h hentries]
      by_cases hpre : isPrecompileAddress (toLower address) = true <;> simp [hpre]
    | cons e rest =>
      rw [getContractAccess_cons h hentries]
      simp
  | contractClaim address claim =>
    rw [allows, Gives, EffectivePermissions.hasContractClaim]
    cases hentries : entriesAt (toLower address) sets with
    | nil =>
      rw [getContractAccess_nil h hentries]
      by_cases hpre : isPrecompileAddress (toLower address) = true <;> simp [hpre]
    | cons e rest =>
      rw [getContractAccess_cons h hentries]
      simp only [contains_iff_mem, mem_claims_foldl]
  | call req org selector => exact allows_call h
  | event address t topics data => exact allows_event h

end Merged

end PrivacySuite.Rbac
