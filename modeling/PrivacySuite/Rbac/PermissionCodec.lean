import PrivacySuite.Rbac.Access
import PrivacySuite.Rbac.EventFilter
import PrivacySuite.Rbac.Resolver

/-!
# Permissions as cached text

Resolved permissions are written to two shared caches: as a row of
`effective_permissions_cache`, whose `contract_access` column is JSON
(`internal/db/rbac_store_cache.go`), and as one JSON document under a Redis key
(`internal/redis/cache.go`). Here are both encodings, with the tags and the custom
marshalers of `internal/rbac/models.go`, and what is read back from them.

JSON stands for the decoded document: that `encoding/json` prints and parses a
document without changing it is not modelled, nor is the order `jsonb` gives the
members of an object.
-/

namespace PrivacySuite.Rbac

open Go List

def Claim.ofText (name : String) : Claim :=
  if name = "admin" then .admin
  else if name = "upgrade" then .upgrade
  else if name = "deploy" then .deploy
  else .other name

@[simp] theorem Claim.text_ofText (name : String) : (Claim.ofText name).text = name := by
  unfold Claim.ofText
  split
  · simp_all [Claim.text]
  · split
    · simp_all [Claim.text]
    · split
      · simp_all [Claim.text]
      · rfl

/-! ## Encoding -/

namespace PermissionCodec

def strings (l : List String) : Json := .arr (l.map .str)

/-- A slice tagged `omitempty`: a member only when there is something in it. -/
def nonEmptySlice {α : Type} (key : String) (encode : α → Json) (l : List α) :
    List (String × Json) :=
  if l = [] then [] else [(key, .arr (l.map encode))]

def paramRule (rule : ParamRule) : Json :=
  .obj [("index", .num rule.index.repr), ("must_be", .str rule.mustBe)]

def functionRule (rule : FunctionRule) : Json :=
  .obj (("selector", .str rule.selector) :: nonEmptySlice "param_rules" paramRule rule.paramRules)

def eventRule (rule : EventRule) : Json :=
  .obj (("topic0", .str rule.topic0) :: ("name", .str rule.name) ::
    nonEmptySlice "param_rules" paramRule rule.paramRules)

/-- `EventRulesField.MarshalJSON`. -/
def eventRulesField (f : EventRulesField) : Json :=
  if f.wildcard then .str "*"
  else if f.rules = [] then .null
  else .arr (f.rules.map eventRule)

/-- A pointer to the event rules; nil is `null`. -/
def eventRules : Option EventRulesField → Json
  | none => .null
  | some f => eventRulesField f

/-- The function list is tagged `omitempty`, so the nil slice and the empty one are both
left out. -/
def contractAccess (access : ContractAccess) : Json :=
  .obj (("claims", strings (access.claims.map Claim.text)) ::
    (nonEmptySlice "functions" functionRule (access.functions.getD []) ++
      [("event_rules", eventRules access.eventRules)]))

/-- `map[string]ContractAccess`. -/
def contractAccessMap (m : List (String × ContractAccess)) : Json :=
  .obj (m.map fun entry => (entry.1, contractAccess entry.2))

/-! ## Decoding -/

def intoInt (current : Int) : Json → Option Int
  | .null => some current
  | .num literal => literal.toInt?
  | _ => none

def intoSlice {α : Type} (element : Json → Option α) (_current : List α) : Json → Option (List α)
  | .null => some []
  | .arr items => items.mapM element
  | _ => none

/-- Decoding into a slice whose nil value means something else. -/
def intoNilableSlice {α : Type} (element : Json → Option α) (_current : Option (List α)) :
    Json → Option (Option (List α))
  | .null => some none
  | .arr items => (items.mapM element).map some
  | _ => none

/-- Decoding into a fresh struct: `null` leaves it at its zero value. -/
def intoStruct {α : Type} (zero : α) (fields : List (String × Json) → Option α) :
    Json → Option α
  | .null => some zero
  | .obj entries => fields entries
  | _ => none

def asParamRule : Json → Option ParamRule :=
  intoStruct ⟨0, ""⟩ fun entries => do
    let index ← structField intoInt 0 entries "index"
    let mustBe ← structField intoString "" entries "must_be"
    return { index, mustBe }

def asFunctionRule : Json → Option FunctionRule :=
  intoStruct { selector := "" } fun entries => do
    let selector ← structField intoString "" entries "selector"
    let paramRules ← structField (intoSlice asParamRule) [] entries "param_rules"
    return { selector, paramRules }

def asEventRule : Json → Option EventRule :=
  intoStruct { topic0 := "" } fun entries => do
    let topic0 ← structField intoString "" entries "topic0"
    let name ← structField intoString "" entries "name"
    let paramRules ← structField (intoSlice asParamRule) [] entries "param_rules"
    return { topic0, name, paramRules }

/-- `EventRulesField.UnmarshalJSON`, behind a pointer: `null` makes the pointer nil. -/
def intoEventRules (_current : Option EventRulesField) : Json → Option (Option EventRulesField)
  | .null => some none
  | .str s => if s = "*" then some (some { wildcard := true }) else none
  | .arr items => (items.mapM asEventRule).map fun rules => some { rules }
  | _ => none

def intoClaims (current : List Claim) (v : Json) : Option (List Claim) :=
  (intoStrings (current.map Claim.text) v).map (·.map Claim.ofText)

def asContractAccess : Json → Option ContractAccess :=
  intoStruct {} fun entries => do
    let claims ← structField intoClaims [] entries "claims"
    let functions ← structField (intoNilableSlice asFunctionRule) none entries "functions"
    let eventRules ← structField intoEventRules none entries "event_rules"
    return { claims, functions, eventRules }

/-- Decoding into a `map[string]ContractAccess`. -/
def intoContractAccessMap (current : List (String × ContractAccess)) :
    Json → Option (List (String × ContractAccess))
  | .null => some []
  | .obj entries =>
      entries.foldlM (fun m entry => (asContractAccess entry.2).map (mapSet m entry.1)) current
  | _ => none

/-! ## Documents -/

/-- `time.Time` as the text of a document. Only the instant has to survive. -/
structure TimeText where
  format : Time → String
  parse : String → Option Time
  parse_format : ∀ t, ∃ t', parse (format t) = some t' ∧ t'.instant = t.instant

def TimeText.intoTime (text : TimeText) (current : Time) : Json → Option Time
  | .null => some current
  | .str s => text.parse s
  | _ => none

/-- The members of the `cachedPermissions` document: the permissions, and the key that
their own encoding leaves out. -/
def members (text : TimeText) (p : ResolvedPermissions) : List (String × Json) :=
  [("user_id", .str p.userID), ("org_id", .str p.orgID),
    ("allowed_methods", strings p.allowedMethods),
    ("contract_access", contractAccessMap p.contractAccess),
    ("claims", strings (p.claims.map Claim.text)),
    ("computed_at", .str (text.format p.computedAt)),
    ("expires_at", .str (text.format p.expiresAt))] ++ textEntry "_rpc_api_key" p.rpcAPIKey

def document (text : TimeText) (p : ResolvedPermissions) : Json := .obj (members text p)

def asPermissions (text : TimeText) : Json → Option ResolvedPermissions
  | .obj entries => do
      let userID ← structField intoString "" entries "user_id"
      let orgID ← structField intoString "" entries "org_id"
      let allowedMethods ← structField intoStrings [] entries "allowed_methods"
      let contractAccess ← structField intoContractAccessMap [] entries "contract_access"
      let claims ← structField intoClaims [] entries "claims"
      let computedAt ← structField text.intoTime .zero entries "computed_at"
      let expiresAt ← structField text.intoTime .zero entries "expires_at"
      let rpcAPIKey ← structField intoString "" entries "_rpc_api_key"
      return { userID, orgID, allowedMethods, contractAccess, claims, computedAt, expiresAt,
               rpcAPIKey }
  | _ => none

/-! ## Rows -/

/-- A row of `effective_permissions_cache`. The two times are columns without a
location, and the key has no column. -/
structure CachedRow where
  userID : String
  orgID : String
  allowedMethods : List String
  contractAccess : Json
  claims : List String
  computedAt : Int
  expiresAt : Int

def row (p : ResolvedPermissions) : CachedRow where
  userID := p.userID
  orgID := p.orgID
  allowedMethods := p.allowedMethods
  contractAccess := contractAccessMap p.contractAccess
  claims := p.claims.map Claim.text
  computedAt := p.computedAt.wallClock
  expiresAt := p.expiresAt.wallClock

/-- The permissions `GetCachedPermissions` makes of a row; `none` is its error. -/
def ofRow (r : CachedRow) : Option ResolvedPermissions :=
  (intoContractAccessMap [] r.contractAccess).map fun contractAccess =>
    { userID := r.userID
      orgID := r.orgID
      allowedMethods := r.allowedMethods
      contractAccess
      claims := r.claims.map Claim.ofText
      computedAt := .ofWallClock r.computedAt
      expiresAt := .ofWallClock r.expiresAt }

/-! ## Round trips -/

def memberNames : List String :=
  ["index", "must_be", "selector", "param_rules", "topic0", "name", "claims", "functions",
   "event_rules", "user_id", "org_id", "allowed_methods", "contract_access", "computed_at",
   "expires_at", "_rpc_api_key"]

theorem memberNames_distinct :
    ∀ key ∈ memberNames, ∀ name ∈ memberNames, equalFold key name = (key == name) := by
  decide +kernel

variable {α : Type} {decode : α → Json → Option α} {zero : α} {name : String}
  {p q : EffectivePermissions}

/-- No member name is another one up to case, so each member is decoded into its own
field. -/
theorem structField_member {key : String} {v : Json} {rest : List (String × Json)}
    (hkey : key ∈ memberNames) (hname : name ∈ memberNames) :
    structField decode zero ((key, v) :: rest) name =
      if key = name then (decode zero v).bind fun a => structField decode a rest name
      else structField decode zero rest name := by
  rw [structField_cons, memberNames_distinct key hkey name hname]
  by_cases h : key = name <;> simp [h]

theorem mapM_encode {encode : α → Json} {element : Json → Option α} {l : List α}
    (h : ∀ a, element (encode a) = some a) : (l.map encode).mapM element = some l := by
  rw [mapM_map, show element ∘ encode = fun a => pure (id a) from funext h, mapM_pure,
    map_id]
  rfl

@[simp] theorem intoStrings_strings (current l : List String) :
    intoStrings current (strings l) = some l :=
  mapM_encode fun _ => rfl

section Slices

variable {α β : Type} {encode : α → Json} {element : Json → Option α}

variable {key : String}

theorem structField_nonEmptySlice (hkey : key ∈ memberNames) (h : ∀ a, element (encode a) = some a)
    (l : List α) :
    structField (intoSlice element) [] (nonEmptySlice key encode l) key = some l := by
  unfold nonEmptySlice
  split
  · simp_all
  · rw [structField_member hkey hkey]
    simp [intoSlice, mapM_encode h]

/-- A slice that is left out when empty is no part of any other field. -/
theorem structField_skip_slice {decode : β → Json → Option β} {zero : β} {name : String}
    (hkey : key ∈ memberNames) (hname : name ∈ memberNames) (hne : key ≠ name) (l : List α)
    (rest : List (String × Json)) :
    structField decode zero (nonEmptySlice key encode l ++ rest) name =
      structField decode zero rest name := by
  unfold nonEmptySlice
  split
  · rfl
  · simp [structField_member hkey hname, hne]

theorem structField_skip_last_slice {decode : β → Json → Option β} {zero : β} {name : String}
    (hkey : key ∈ memberNames) (hname : name ∈ memberNames) (hne : key ≠ name) (l : List α) :
    structField decode zero (nonEmptySlice key encode l) name = some zero := by
  rw [← append_nil (nonEmptySlice key encode l), structField_skip_slice hkey hname hne]
  rfl

end Slices

@[simp] theorem asParamRule_paramRule (rule : ParamRule) :
    asParamRule (paramRule rule) = some rule := by
  simp (disch := decide) [asParamRule, paramRule, intoStruct, structField_member, intoInt,
    intoString]

theorem structField_paramRules (l : List ParamRule) :
    structField (intoSlice asParamRule) [] (nonEmptySlice "param_rules" paramRule l) "param_rules" =
      some l :=
  structField_nonEmptySlice (by decide) asParamRule_paramRule l

@[simp] theorem asFunctionRule_functionRule (rule : FunctionRule) :
    asFunctionRule (functionRule rule) = some rule := by
  simp (disch := decide) [asFunctionRule, functionRule, intoStruct, structField_member, intoString,
    structField_paramRules, structField_skip_last_slice]

@[simp] theorem asEventRule_eventRule (rule : EventRule) :
    asEventRule (eventRule rule) = some rule := by
  simp (disch := decide) [asEventRule, eventRule, intoStruct, structField_member, intoString,
    structField_paramRules, structField_skip_last_slice]

/-- What is read back of a pointer to event rules: rules that deny come back as nil. -/
def eventRulesReadBack (f : Option EventRulesField) : Option EventRulesField :=
  f.bind fun f =>
    if f.wildcard then some { wildcard := true }
    else if f.rules = [] then none
    else some { rules := f.rules }

theorem intoEventRules_eventRules (current f : Option EventRulesField) :
    intoEventRules current (eventRules f) = some (eventRulesReadBack f) := by
  cases f with
  | none => rfl
  | some f =>
    by_cases hw : f.wildcard = true <;> by_cases hr : f.rules = [] <;>
      simp [eventRules, eventRulesField, hw, hr, intoEventRules, eventRulesReadBack,
        mapM_encode asEventRule_eventRule]

/-- What is read back of a function list: the empty list comes back as nil. -/
def functionsReadBack (functions : Option (List FunctionRule)) : Option (List FunctionRule) :=
  if functions = some [] then none else functions

def readBack (access : ContractAccess) : ContractAccess where
  claims := access.claims.map fun c => .ofText c.text
  functions := functionsReadBack access.functions
  eventRules := eventRulesReadBack access.eventRules

theorem structField_functions (functions : Option (List FunctionRule)) (v : Json) :
    structField (intoNilableSlice asFunctionRule) none
        (nonEmptySlice "functions" functionRule (functions.getD []) ++ [("event_rules", v)])
        "functions" = some (functionsReadBack functions) := by
  match functions with
  | none | some [] =>
    simp (disch := decide) [nonEmptySlice, structField_member, functionsReadBack]
  | some (rule :: rest) =>
    have hrules := mapM_encode (l := rule :: rest) asFunctionRule_functionRule
    have hne : rule :: rest ≠ [] := by simp
    simp only [Option.getD_some, nonEmptySlice, hne, if_false, singleton_append]
    simp (disch := decide) only [structField_member, if_true, intoNilableSlice, hrules,
      Option.map_some, Option.bind_some]
    simp [functionsReadBack]

theorem asContractAccess_contractAccess (access : ContractAccess) :
    asContractAccess (contractAccess access) = some (readBack access) := by
  have hfunctions := structField_functions access.functions (eventRules access.eventRules)
  simp (disch := decide) [asContractAccess, contractAccess, intoStruct, structField_member,
    structField_skip_slice, hfunctions, intoEventRules_eventRules, intoClaims, readBack]

def readBackMap (m : List (String × ContractAccess)) : List (String × ContractAccess) :=
  m.map fun entry => (entry.1, readBack entry.2)

theorem intoContractAccessMap_contractAccessMap (current m : List (String × ContractAccess)) :
    intoContractAccessMap current (contractAccessMap m) =
      some (m.foldl (fun acc entry => mapSet acc entry.1 (readBack entry.2)) current) := by
  simp only [contractAccessMap, intoContractAccessMap]
  induction m generalizing current with
  | nil => rfl
  | cons entry rest ih =>
    simp only [map_cons, foldlM_cons, foldl_cons, asContractAccess_contractAccess,
      Option.map_some, Option.bind_eq_bind, Option.bind_some]
    exact ih _

theorem intoContractAccessMap_of_nodup {m : List (String × ContractAccess)}
    (h : (m.map Prod.fst).Nodup) :
    intoContractAccessMap [] (contractAccessMap m) = some (readBackMap m) := by
  rw [intoContractAccessMap_contractAccessMap, foldl_mapSet_copy readBack m (by simpa using h)]
  rfl

/-- The permissions read back from either cache, up to times and key. -/
def permissionsReadBack (p : EffectivePermissions) : EffectivePermissions where
  allowedMethods := p.allowedMethods
  contractAccess := readBackMap p.contractAccess
  claims := p.claims.map fun c => .ofText c.text
  rpcAPIKey := p.rpcAPIKey

/-- A row is always readable, and keeps the clock time of the expiry. -/
theorem ofRow_row (p : ResolvedPermissions) :
    ∃ q, ofRow (row p) = some q ∧ q.expiresAt = .ofWallClock p.expiresAt.wallClock := by
  simp [ofRow, row, intoContractAccessMap_contractAccessMap]

theorem ofRow_row_permissions {p : ResolvedPermissions}
    (h : (p.contractAccess.map Prod.fst).Nodup) :
    ∃ q, ofRow (row p) = some q ∧ q.toEffectivePermissions =
      { permissionsReadBack p.toEffectivePermissions with rpcAPIKey := "" } := by
  simp [ofRow, row, intoContractAccessMap_of_nodup h, permissionsReadBack, Function.comp_def]

/-- A field is decoded from the one member that has its name. -/
theorem structField_lookup {entries : List (String × Json)} (hname : name ∈ memberNames)
    (hkeys : ∀ key ∈ entries.map Prod.fst, key ∈ memberNames)
    (hnodup : (entries.map Prod.fst).Nodup) :
    structField decode zero entries name =
      match entries.lookup name with
      | some v => decode zero v
      | none => some zero := by
  induction entries generalizing zero with
  | nil => rfl
  | cons entry rest ih =>
    obtain ⟨key, v⟩ := entry
    rw [map_cons, nodup_cons] at hnodup
    have hrest a := @ih a (fun k hk => hkeys k (mem_cons_of_mem key hk)) hnodup.2
    rw [structField_member (hkeys key mem_cons_self) hname, lookup_cons]
    by_cases h : key = name
    · -- the member itself; no later one has the name
      subst h
      have hnone : rest.lookup key = none := lookup_eq_none_of_not_mem hnodup.1
      have hskip : (fun a => structField decode a rest key) = some := by
        simp only [hrest, hnone]
      simp [hskip]
    · have hne : (name == key) = false := beq_false_of_ne (Ne.symm h)
      simp [h, hne, hrest]

theorem structField_members (hname : name ∈ memberNames) (text : TimeText) (p :
    ResolvedPermissions) :
    structField decode zero (members text p) name =
      match (members text p).lookup name with
      | some v => decode zero v
      | none => some zero := by
  apply structField_lookup hname
  · unfold members textEntry
    split <;> simp [memberNames]
  · unfold members textEntry
    split <;> simp

theorem lookup_members_key (text : TimeText) (p : ResolvedPermissions) :
    (members text p).lookup "_rpc_api_key" =
      if p.rpcAPIKey = "" then none else some (.str p.rpcAPIKey) := by
  unfold members textEntry
  split <;> simp [lookup_cons, *]

/-- A document is always readable; it keeps the instant of the expiry and, for
distinct addresses, the permissions up to `readBack`. -/
theorem asPermissions_document (text : TimeText) (p : ResolvedPermissions) :
    ∃ q, asPermissions text (document text p) = some q ∧
      q.expiresAt.instant = p.expiresAt.instant ∧
      ((p.contractAccess.map Prod.fst).Nodup →
        q.toEffectivePermissions = permissionsReadBack p.toEffectivePermissions) := by
  obtain ⟨computedAt, hcomputed, -⟩ := text.parse_format p.computedAt
  obtain ⟨expiresAt, hexpires, hinstant⟩ := text.parse_format p.expiresAt
  have huser : structField intoString "" (members text p) "user_id" = some p.userID := by
    rw [structField_members (by decide)]; rfl
  have horg : structField intoString "" (members text p) "org_id" = some p.orgID := by
    rw [structField_members (by decide)]; rfl
  have hmethods : structField intoStrings [] (members text p) "allowed_methods" =
      some p.allowedMethods := by
    rw [structField_members (by decide)]
    exact intoStrings_strings [] _
  have haccess : structField intoContractAccessMap [] (members text p) "contract_access" =
      some (p.contractAccess.foldl (fun acc entry => mapSet acc entry.1 (readBack entry.2))
        []) := by
    rw [structField_members (by decide)]
    exact intoContractAccessMap_contractAccessMap [] _
  have hclaims : structField intoClaims [] (members text p) "claims" =
      some (p.claims.map fun c => .ofText c.text) := by
    rw [structField_members (by decide)]
    show intoClaims [] (strings (p.claims.map Claim.text)) = _
    simp [intoClaims, Function.comp_def]
  have htime : structField text.intoTime .zero (members text p) "computed_at" =
      some computedAt := by
    rw [structField_members (by decide)]
    exact hcomputed
  have hexpiry : structField text.intoTime .zero (members text p) "expires_at" =
      some expiresAt := by
    rw [structField_members (by decide)]
    exact hexpires
  have hkey : structField intoString "" (members text p) "_rpc_api_key" = some p.rpcAPIKey := by
    rw [structField_members (by decide), lookup_members_key]
    by_cases hk : p.rpcAPIKey = "" <;> simp [hk, intoString]
  refine ⟨{ userID := p.userID, orgID := p.orgID, allowedMethods := p.allowedMethods,
            contractAccess :=
              p.contractAccess.foldl (fun acc entry => mapSet acc entry.1 (readBack entry.2)) [],
            claims := p.claims.map fun c => .ofText c.text,
            computedAt, expiresAt, rpcAPIKey := p.rpcAPIKey }, ?_, hinstant, ?_⟩
  · show asPermissions text (.obj (members text p)) = _
    simp only [asPermissions, huser, horg, hmethods, haccess, hclaims, htime, hexpiry, hkey,
      Option.bind_eq_bind, Option.bind_some, Option.pure_def]
  · intro h
    dsimp only
    rw [foldl_mapSet_copy readBack p.contractAccess (by simpa using h)]
    rfl

/-! ## What the two values answer -/

/-- The two values give the same answer to every question an access decision asks of
them: methods, claims, addresses, function selectors, parameter and event rules. A
claim is its string, as in Go. -/
structure SameAnswers (p q : EffectivePermissions) : Prop where
  methods : ∀ reg method, q.hasMethod reg method = p.hasMethod reg method
  claims : ∀ name, (q.claims.map Claim.text).contains name = (p.claims.map Claim.text).contains name
  addresses : ∀ address, q.isContractRegistered address = p.isContractRegistered address ∧
    (q.getContractAccess address).isSome = (p.getContractAccess address).isSome
  contractClaims : ∀ address name,
    ((q.getContractAccess address).map fun a => (a.claims.map Claim.text).contains name) =
      (p.getContractAccess address).map fun a => (a.claims.map Claim.text).contains name
  selectors : ∀ address selector,
    ((q.getContractAccess address).map fun a => accessHasFunctionSelector a selector) =
      (p.getContractAccess address).map fun a => accessHasFunctionSelector a selector
  paramRules : ∀ address selector,
    ((q.getContractAccess address).bind fun a => accessGetFunctionRule a selector) =
      (p.getContractAccess address).bind fun a => accessGetFunctionRule a selector
  eventModes : ∀ address, LogFilter.ruleMode (LogFilter.rulesOf (q.getContractAccess address)) =
    LogFilter.ruleMode (LogFilter.rulesOf (p.getContractAccess address))
  eventRules : ∀ address,
    LogFilter.eventRulesGetRules (LogFilter.rulesOf (q.getContractAccess address)) =
      LogFilter.eventRulesGetRules (LogFilter.rulesOf (p.getContractAccess address))

/-- No entry has an empty function list, the one that allows no function. -/
def NoEmptyFunctionList (p : EffectivePermissions) : Prop :=
  ∀ entry ∈ p.contractAccess, entry.2.functions ≠ some []

theorem map_text_ofText (claims : List Claim) :
    ((claims.map fun c => Claim.ofText c.text).map Claim.text) = claims.map Claim.text := by
  simp [Function.comp_def]

theorem getFunctionRule_readBack (access : ContractAccess) (selector : String) :
    accessGetFunctionRule (readBack access) selector = accessGetFunctionRule access selector := by
  unfold accessGetFunctionRule readBack functionsReadBack
  by_cases h : access.functions = some [] <;> simp [h]

/-- The empty list is read back as nil, so every selector passes. -/
theorem hasFunctionSelector_readBack (access : ContractAccess) (selector : String) :
    accessHasFunctionSelector (readBack access) selector =
      (accessHasFunctionSelector access selector || decide (access.functions = some [])) := by
  unfold accessHasFunctionSelector readBack functionsReadBack
  by_cases h : access.functions = some [] <;> simp [h]

theorem ruleMode_readBack (f : Option EventRulesField) :
    LogFilter.ruleMode (eventRulesReadBack f) = LogFilter.ruleMode f := by
  cases f with
  | none => rfl
  | some f =>
    by_cases hw : f.wildcard = true <;> by_cases hr : f.rules = [] <;>
      simp [eventRulesReadBack, LogFilter.ruleMode, hw, hr]

theorem getRules_readBack (f : Option EventRulesField) :
    LogFilter.eventRulesGetRules (eventRulesReadBack f) = LogFilter.eventRulesGetRules f := by
  cases f with
  | none => rfl
  | some f =>
    by_cases hw : f.wildcard = true <;> by_cases hr : f.rules = [] <;>
      simp [eventRulesReadBack, LogFilter.eventRulesGetRules, hw, hr]

theorem rulesOf_readBack (access : Option ContractAccess) :
    LogFilter.rulesOf (access.map readBack) = eventRulesReadBack (LogFilter.rulesOf access) := by
  cases access <;> rfl

theorem lookup_readBackMap (m : List (String × ContractAccess)) (k : String) :
    (readBackMap m).lookup k = (m.lookup k).map readBack := by
  induction m with
  | nil => rfl
  | cons entry rest ih =>
    obtain ⟨k', access⟩ := entry
    simp only [readBackMap, map_cons, lookup_cons]
    cases k == k'
    · exact ih
    · rfl

theorem getContractAccess_readBack (h : q.contractAccess = readBackMap p.contractAccess)
    (address : String) :
    q.getContractAccess address = (p.getContractAccess address).map readBack := by
  unfold EffectivePermissions.getContractAccess
  rw [h, lookup_readBackMap]
  cases p.contractAccess.lookup (toLower address) with
  | some access => rfl
  | none =>
    simp only [Option.map_none]
    by_cases hp : isPrecompileAddress (toLower address) = true
    · simp only [hp, if_true]
      rfl
    · simp [hp]

/-- Read back, everything but the selectors is as before. -/
theorem sameAnswers_of_selectors (hmethods : q.allowedMethods = p.allowedMethods)
    (hclaims : q.claims = p.claims.map fun c => .ofText c.text)
    (haccess : q.contractAccess = readBackMap p.contractAccess)
    (hselectors : ∀ address selector,
      ((q.getContractAccess address).map fun a => accessHasFunctionSelector a selector) =
        (p.getContractAccess address).map fun a => accessHasFunctionSelector a selector) :
    SameAnswers p q where
  methods reg method := by simp [EffectivePermissions.hasMethod, hmethods]
  claims name := by rw [hclaims, map_text_ofText]
  addresses address := by
    constructor
    · simp [EffectivePermissions.isContractRegistered, haccess, lookup_readBackMap]
    · simp [getContractAccess_readBack haccess]
  contractClaims address name := by
    rw [getContractAccess_readBack haccess, Option.map_map]
    simp [Function.comp_def, readBack]
  selectors := hselectors
  paramRules address selector := by
    rw [getContractAccess_readBack haccess, Option.bind_map]
    simp [getFunctionRule_readBack]
  eventModes address := by
    rw [getContractAccess_readBack haccess, rulesOf_readBack, ruleMode_readBack]
  eventRules address := by
    rw [getContractAccess_readBack haccess, rulesOf_readBack, getRules_readBack]

theorem selectors_readBack_iff (hkeys : Resolver.LowerKeys p.contractAccess)
    (haccess : q.contractAccess = readBackMap p.contractAccess) :
    (∀ address selector,
      ((q.getContractAccess address).map fun a => accessHasFunctionSelector a selector) =
        (p.getContractAccess address).map fun a => accessHasFunctionSelector a selector) ↔
      NoEmptyFunctionList p := by
  constructor
  · -- an entry with an empty list answers no for every selector, and yes after
    intro h entry hentry hempty
    have hkey : toLower entry.1 = entry.1 := hkeys.lower _ (mem_map_of_mem hentry)
    have hlookup : p.contractAccess.lookup entry.1 = some entry.2 :=
      lookup_of_mem hkeys.nodup hentry
    have hget : p.getContractAccess entry.1 = some entry.2 := by
      simp [EffectivePermissions.getContractAccess, hkey, hlookup]
    have hanswer := h entry.1 ""
    rw [getContractAccess_readBack haccess, hget] at hanswer
    simp only [Option.map_some, Option.some.injEq, hasFunctionSelector_readBack] at hanswer
    simp [hempty, accessHasFunctionSelector] at hanswer
  · intro h address selector
    rw [getContractAccess_readBack haccess, Option.map_map]
    cases hget : p.getContractAccess address with
    | none => rfl
    | some access =>
      have hne : access.functions ≠ some [] := by
        unfold EffectivePermissions.getContractAccess at hget
        cases hlookup : p.contractAccess.lookup (toLower address) with
        | some stored =>
          rw [hlookup] at hget
          cases hget
          exact h _ (mem_of_lookup hlookup)
        | none =>
          rw [hlookup] at hget
          simp only [Option.ite_none_right_eq_some, Option.some.injEq] at hget
          rw [← hget.2]
          simp
      simp [Function.comp_def, hasFunctionSelector_readBack, hne]

/-- What is read back answers like the original exactly when no entry of it has an
empty function list. -/
theorem sameAnswers_readBack_iff (hkeys : Resolver.LowerKeys p.contractAccess)
    (hmethods : q.allowedMethods = p.allowedMethods)
    (hclaims : q.claims = p.claims.map fun c => .ofText c.text)
    (haccess : q.contractAccess = readBackMap p.contractAccess) :
    SameAnswers p q ↔ NoEmptyFunctionList p := by
  rw [← selectors_readBack_iff hkeys haccess]
  exact ⟨fun h => h.selectors, sameAnswers_of_selectors hmethods hclaims haccess⟩

end PermissionCodec

end PrivacySuite.Rbac
